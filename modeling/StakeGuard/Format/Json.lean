import StakeGuard.Text.Hex
import StakeGuard.Text.Numeral

/-!
# JSON values

JSON as trees. A string is kept as the code points that its text denotes, so that one with a lone
surrogate can be told from a text, and with a note whether control characters stood in it unescaped.
A number is kept as it was written. What a reader may take for a text, an integer or a byte string is
decided here, by `text?`, `natural?` and `bytes`.
-/

namespace StakeGuard

/-- A string by its code points; surrogates among them are unpaired. -/
structure JsonString where
  points : List Nat
  hasControl : Bool
deriving DecidableEq

namespace JsonString

/-- Whether a code point is one half of a surrogate pair. -/
def isSurrogate (n : Nat) : Bool := 0xd800 ≤ n && n ≤ 0xdfff

/-- The string that denotes a text. -/
def ofString (s : String) : JsonString := ⟨s.toList.map Char.toNat, false⟩

/-- The text that a string denotes; none with lone surrogates or unescaped control characters. -/
def text? (s : JsonString) : Option String :=
  if s.hasControl || s.points.any isSurrogate then none
  else some (String.ofList (s.points.map Char.ofNat))

/-- The bytes of a code point; a surrogate is written like its neighbours. -/
def pointBytes (n : Nat) : Bytes :=
  if isSurrogate n then
    [.ofNat (0xe0 + n / 4096), .ofNat (0x80 + n / 64 % 64), .ofNat (0x80 + n % 64)]
  else String.utf8EncodeChar (Char.ofNat n)

/-- The bytes that a string stands for where bytes are wanted. -/
def bytes (s : JsonString) : Bytes := s.points.flatMap pointBytes

end JsonString

/-- The values of the format. Members stand in the order of the text, and a key may come more than once.
-/
inductive Json where
  | null
  | bool (value : Bool)
  | number (written : List Char)
  | string (value : JsonString)
  | array (items : List Json)
  | object (members : List (JsonString × Json))

namespace Json

instance : Inhabited Json := ⟨null⟩

mutual

/-- Whether no control character stands unescaped in any string of a value, so that it may be
passed over. -/
def isClean : Json → Bool
  | string value => !value.hasControl
  | array items => allClean items
  | object members => allMembersClean members
  | _ => true

/-- The same for every item of an array. -/
def allClean : List Json → Bool
  | [] => true
  | item :: rest => item.isClean && allClean rest

/-- The same for every member of an object, its key included. -/
def allMembersClean : List (JsonString × Json) → Bool
  | [] => true
  | (key, value) :: rest => !key.hasControl && value.isClean && allMembersClean rest

end

/-- The number written in digits only, if it is below a bound. -/
def natural? (bound : Nat) : Json → Option Nat
  | number written => (Text.digits? written).filter (· < bound)
  | _ => none

/-- A number written in decimal digits. -/
def ofNat (n : Nat) : Json := number (Nat.toDigits 10 n)

/-- The text that a value is, if it is one. -/
def text? : Json → Option String
  | string value => value.text?
  | _ => none

/-- The truth value that a value is, if it is one. -/
def bool? : Json → Option Bool
  | bool value => some value
  | _ => none

/-- The items of an array. -/
def items? : Json → Option (List Json)
  | array items => some items
  | _ => none

end Json

end StakeGuard
