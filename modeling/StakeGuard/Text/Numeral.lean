/-!
# Decimal numerals

Unsigned numbers as written by hand: digits only, after at most one plus sign.
-/

namespace StakeGuard.Text

/-- The value of a decimal digit; the digits of other scripts are none. -/
def digit? (c : Char) : Option Nat := if '0' ≤ c ∧ c ≤ '9' then some (c.toNat - 48) else none

/-- The number that a list of decimal digits continues. -/
def digitsFrom (start : Nat) : List Char → Option Nat
  | [] => some start
  | c :: rest => (digit? c).bind fun d => digitsFrom (10 * start + d) rest

/-- The number written by one or more decimal digits. -/
def digits? (text : List Char) : Option Nat := if text.isEmpty then none else digitsFrom 0 text

/-- The number below `bound` that a numeral writes. -/
def readUnsigned (bound : Nat) (text : List Char) : Option Nat :=
  let digits := match text with
    | '+' :: rest => rest
    | _ => text
  (digits? digits).filter (· < bound)

end StakeGuard.Text
