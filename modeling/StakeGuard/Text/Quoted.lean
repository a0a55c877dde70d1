import StakeGuard.Text.Combining
import StakeGuard.Text.Hex
import StakeGuard.Text.Unprintable

/-!
# Quoted text

How messages show foreign text: in quotes, on one line, and with nothing invisible. The quote that
surrounds the text and the backslash are escaped by a backslash, the common controls by a letter,
and every other character that cannot be seen on its own by its code point in braces.
-/

namespace StakeGuard.Text

/-- The digits of a number in lower-case hexadecimal, at least one. -/
def hexNumber (n : Nat) : List Char := Nat.toDigits 16 n

/-- One character of a text that stands between the given quotes. -/
def escape (quote c : Char) : List Char :=
  if c = '\x00' then ['\\', '0']
  else if c = '\t' then ['\\', 't']
  else if c = '\r' then ['\\', 'r']
  else if c = '\n' then ['\\', 'n']
  else if c = '\\' ∨ c = quote then ['\\', c]
  else if ' ' ≤ c ∧ c ≤ '~' then [c]
  else if isCombining c || isUnprintable c then
    '\\' :: 'u' :: '\x7b' :: (hexNumber c.toNat ++ ['\x7d'])
  else [c]

/-- A text in double quotes; single ones stand in it as they are. -/
def quoted (text : String) : String :=
  String.ofList ('"' :: (text.toList.flatMap (escape '"') ++ ['"']))

/-- A character in single quotes; a double one stands in them as it is. -/
def quotedChar (c : Char) : String := String.ofList ('\'' :: (escape '\'' c ++ ['\'']))

namespace Hex

/-- The text of a fault; a byte is shown as the character of that code point. -/
def Error.message : Error → String
  | .oddLength => "Odd number of digits"
  | .invalidDigit byte position =>
    s!"Invalid character {quotedChar (Char.ofNat byte.toNat)} at position {position}"

end Hex

end StakeGuard.Text
