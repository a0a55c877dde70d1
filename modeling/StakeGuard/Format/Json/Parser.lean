import StakeGuard.Format.Json

/-!
# Reading JSON

The value that a text writes, or nothing where the text is not JSON: blanks are the four of the
format, nothing may follow the value, numbers have no superfluous zeros, and nesting is not limited.
Control characters inside strings are let through and noted in the string. Every reader takes its part
off the front of a text and leaves the text after it.
-/

namespace StakeGuard.Json

/-- Whether a character is one of the four blanks. -/
def isBlank (c : Char) : Bool := c = ' ' || c = '\t' || c = '\n' || c = '\r'

/-- The text without the blanks in front. -/
def skip (text : List Char) : List Char := text.dropWhile isBlank

/-- Whether a character is a decimal digit. -/
def isDigit (c : Char) : Bool := '0' ≤ c && c ≤ '9'

/-! ## Strings -/

/-- The value of a hexadecimal digit of either case. -/
def hexDigit? (c : Char) : Option Nat :=
  if c.toNat < 128 then Text.Hex.value? (.ofNat c.toNat) else none

/-- The unit that four hexadecimal digits write. -/
def hexUnit? (a b c d : Char) : Option Nat := do
  return 4096 * (← hexDigit? a) + 256 * (← hexDigit? b) + 16 * (← hexDigit? c) + (← hexDigit? d)

/-- The code point that a single character after a backslash stands for. -/
def escaped? : Char → Option Nat
  | '"' => some 0x22
  | '\\' => some 0x5c
  | '/' => some 0x2f
  | 'b' => some 0x08
  | 'f' => some 0x0c
  | 'n' => some 0x0a
  | 'r' => some 0x0d
  | 't' => some 0x09
  | _ => none

/-- Puts one more unit in front of the units of a string. -/
def withUnit (unit : Nat) (control : Bool) :
    Option (JsonString × List Char) → Option (JsonString × List Char)
  | none => none
  | some (s, rest) => some (⟨unit :: s.points, control || s.hasControl⟩, rest)

/-- The units of a string up to its closing quote, surrogate pairs still in two halves, and the text
after it. -/
def units : List Char → Option (JsonString × List Char)
  | [] => none
  | '"' :: rest => some (⟨[], false⟩, rest)
  -- before the escapes of one character, among which there is no `u`
  | '\\' :: 'u' :: a :: b :: c :: d :: rest =>
    match hexUnit? a b c d with
    | none => none
    | some unit => withUnit unit false (units rest)
  | '\\' :: e :: rest =>
    match escaped? e with
    | none => none
    | some unit => withUnit unit false (units rest)
  | c :: rest =>
    if c = '\\' then none else withUnit c.toNat (c.toNat < 32) (units rest)

/-- Joins each leading half of a surrogate pair with the trailing half right after it. -/
def joinPairs : List Nat → List Nat
  | high :: low :: rest =>
    if 0xd800 ≤ high ∧ high ≤ 0xdbff ∧ 0xdc00 ≤ low ∧ low ≤ 0xdfff then
      (0x10000 + 0x400 * (high - 0xd800) + (low - 0xdc00)) :: joinPairs rest
    else high :: joinPairs (low :: rest)
  | units => units

/-- The string whose opening quote stands before the text, and the text after it. -/
def readString (text : List Char) : Option (JsonString × List Char) :=
  match units text with
  | none => none
  | some (s, rest) => some ({ s with points := joinPairs s.points }, rest)

/-! ## Numbers -/

/-- One or more digits, and the text after them. -/
def readDigits (text : List Char) : Option (List Char × List Char) :=
  let digits := text.takeWhile isDigit
  if digits.isEmpty then none else some (digits, text.dropWhile isDigit)

/-- Digits without a superfluous zero in front, and the text after them. -/
def readInteger (text : List Char) : Option (List Char × List Char) :=
  match readDigits text with
  | some ('0' :: _ :: _, _) => none
  | result => result

/-- A point and digits, or nothing, and the text after them. -/
def readFraction : List Char → Option (List Char × List Char)
  | '.' :: text => (readDigits text).map fun (digits, rest) => ('.' :: digits, rest)
  | text => some ([], text)

/-- A sign of either kind, or nothing, and the text after it. -/
def readSign : List Char → List Char × List Char
  | '+' :: rest => (['+'], rest)
  | '-' :: rest => (['-'], rest)
  | text => ([], text)

/-- The letter of an exponent with its sign and digits, or nothing, and the text after them. -/
def readExponent : List Char → Option (List Char × List Char)
  | c :: text =>
    if c = 'e' ∨ c = 'E' then
      let (sign, text) := readSign text
      (readDigits text).map fun (digits, rest) => (c :: (sign ++ digits), rest)
    else some ([], c :: text)
  | [] => some ([], [])

/-- A number as it is written, and the text after it. -/
def readNumber (text : List Char) : Option (List Char × List Char) := do
  let (sign, text) := match text with
    | '-' :: rest => (['-'], rest)
    | _ => ([], text)
  let (integer, text) ← readInteger text
  let (fraction, text) ← readFraction text
  let (exponent, text) ← readExponent text
  return (sign ++ integer ++ fraction ++ exponent, text)

/-! ## Values -/

mutual

/-- A value, and the text after it. Every call made on the way costs a unit of `fuel`; `parse` gives
enough for any text. -/
def readValue : (fuel : Nat) → List Char → Option (Json × List Char)
  | 0, _ => none
  | fuel + 1, text =>
    match skip text with
    | '"' :: rest => (readString rest).map fun (s, rest) => (string s, rest)
    | '[' :: rest =>
      match skip rest with
      | ']' :: rest => some (array [], rest)
      | rest => (readItems fuel rest).map fun (items, rest) => (array items, rest)
    | '\x7b' :: rest =>
      match skip rest with
      | '\x7d' :: rest => some (object [], rest)
      | rest => (readMembers fuel rest).map fun (members, rest) => (object members, rest)
    | 'n' :: 'u' :: 'l' :: 'l' :: rest => some (null, rest)
    | 't' :: 'r' :: 'u' :: 'e' :: rest => some (bool true, rest)
    | 'f' :: 'a' :: 'l' :: 's' :: 'e' :: rest => some (bool false, rest)
    | rest => (readNumber rest).map fun (written, rest) => (number written, rest)

/-- The items of an array up to its closing bracket, and the text after it. -/
def readItems : (fuel : Nat) → List Char → Option (List Json × List Char)
  | 0, _ => none
  | fuel + 1, text =>
    match readValue fuel text with
    | none => none
    | some (item, rest) =>
      match skip rest with
      | ']' :: rest => some ([item], rest)
      | ',' :: rest => (readItems fuel rest).map fun (items, rest) => (item :: items, rest)
      | _ => none

/-- The members of an object up to its closing brace, and the text after it. -/
def readMembers : (fuel : Nat) → List Char → Option (List (JsonString × Json) × List Char)
  | 0, _ => none
  | fuel + 1, text =>
    match skip text with
    | '"' :: rest =>
      match readString rest with
      | none => none
      | some (key, rest) =>
        match skip rest with
        | ':' :: rest =>
          match readValue fuel rest with
          | none => none
          | some (value, rest) =>
            match skip rest with
            | '\x7d' :: rest => some ([(key, value)], rest)
            | ',' :: rest =>
              (readMembers fuel rest).map fun (members, rest) => ((key, value) :: members, rest)
            | _ => none
        | _ => none
    | _ => none

end

/-- The value that a whole text writes. -/
def parse (text : List Char) : Option Json :=
  -- of two calls that follow each other one takes a character off, so the fuel is never used up
  match readValue (2 * text.length + 2) text with
  | none => none
  | some (value, rest) => if (skip rest).isEmpty then some value else none

end StakeGuard.Json
