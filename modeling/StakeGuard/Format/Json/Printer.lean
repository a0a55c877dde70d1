import StakeGuard.Format.Json

/-!
# Writing JSON

The text of a value without blanks. Strings escape quotes, backslashes, control characters and lone
surrogates, and nothing else.
-/

namespace StakeGuard.Json

/-- A backslash, a `u` and four lower-case hexadecimal digits. -/
def unitEscape (n : Nat) : List Char :=
  '\\' :: 'u' :: [n / 4096, n / 256 % 16, n / 16 % 16, n % 16].map Text.Hex.digit

/-- A code point of a string, escaped where it must be. A lone surrogate is the only one that no
character stands for. -/
def writePoint (n : Nat) : List Char :=
  if n = 0x22 then ['\\', '"']
  else if n = 0x5c then ['\\', '\\']
  else if n = 0x08 then ['\\', 'b']
  else if n = 0x09 then ['\\', 't']
  else if n = 0x0a then ['\\', 'n']
  else if n = 0x0c then ['\\', 'f']
  else if n = 0x0d then ['\\', 'r']
  else if n < 0x20 || JsonString.isSurrogate n then unitEscape n
  else [Char.ofNat n]

/-- A string in its quotes. -/
def writeString (s : JsonString) : List Char := '"' :: (s.points.flatMap writePoint ++ ['"'])

mutual

/-- The text of a value. -/
def render : Json → List Char
  | null => ['n', 'u', 'l', 'l']
  | bool true => ['t', 'r', 'u', 'e']
  | bool false => ['f', 'a', 'l', 's', 'e']
  | number written => written
  | string value => writeString value
  | array items => '[' :: (renderItems items ++ [']'])
  | object members => '\x7b' :: (renderMembers members ++ ['\x7d'])

/-- The items of an array with commas between them. -/
def renderItems : List Json → List Char
  | [] => []
  | [item] => item.render
  | item :: rest => item.render ++ ',' :: renderItems rest

/-- The members of an object with commas between them. -/
def renderMembers : List (JsonString × Json) → List Char
  | [] => []
  | [(key, value)] => writeString key ++ ':' :: value.render
  | (key, value) :: rest => writeString key ++ ':' :: (value.render ++ ',' :: renderMembers rest)

end

/-- The text of a value as a string. -/
def compact (value : Json) : String := String.ofList value.render

end StakeGuard.Json
