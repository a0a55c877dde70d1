import StakeGuard.Bytes

/-!
# Hexadecimal text

Byte strings as two digits for each byte. Writing uses lower case, reading takes either case and
reports the first fault: an odd number of digits before a byte that is no digit, and of those the
leftmost. Main statement: reading inverts writing (`decode_encode`).
-/

namespace StakeGuard.Text

/-- The UTF-8 bytes of a text. -/
def utf8 (text : List Char) : Bytes := text.flatMap String.utf8EncodeChar

namespace Hex

/-- The digit of a number below sixteen. -/
def digit (n : Nat) : Char := if n < 10 then Char.ofNat (48 + n) else Char.ofNat (87 + n)

/-- The value of a digit of either case, given as a byte. -/
def value? (b : UInt8) : Option Nat :=
  let n := b.toNat
  if 48 ≤ n ∧ n ≤ 57 then some (n - 48)
  else if 97 ≤ n ∧ n ≤ 102 then some (n - 87)
  else if 65 ≤ n ∧ n ≤ 70 then some (n - 55)
  else none

/-- Two digits for each byte, the more significant first. -/
def encode (bytes : Bytes) : List Char :=
  bytes.flatMap fun b => [digit (b.toNat / 16), digit (b.toNat % 16)]

/-- The digits of a byte string as a text. -/
def text (bytes : Bytes) : String := String.ofList (encode bytes)

/-- Why a text is not hexadecimal. A byte that is no digit is told with its position in the text. -/
inductive Error where
  | oddLength
  | invalidDigit (byte : UInt8) (position : Nat)
deriving DecidableEq

/-- Reads pairs of digits, the first of which stands at the given position of the text. -/
def decodePairs (position : Nat) : Bytes → Except Error Bytes
  | [] => .ok []
  | [_] => .error .oddLength
  | high :: low :: rest =>
    match value? high with
    | none => .error (.invalidDigit high position)
    | some h =>
      match value? low with
      | none => .error (.invalidDigit low (position + 1))
      | some l =>
        match decodePairs (position + 2) rest with
        | .error e => .error e
        | .ok bytes => .ok (UInt8.ofNat (16 * h + l) :: bytes)

/-- Reads the UTF-8 bytes of a hexadecimal text. -/
def decode (digits : Bytes) : Except Error Bytes :=
  if digits.length % 2 = 1 then .error .oddLength else decodePairs 0 digits

/-- A digit is one byte in UTF-8, and that byte has the digit's value. -/
theorem value?_digit {n : Nat} (h : n < 16) :
    ∃ b, String.utf8EncodeChar (digit n) = [b] ∧ value? b = some n := by
  have hall : ∀ m : Fin 16, ∃ b, String.utf8EncodeChar (digit m) = [b] ∧ value? b = some m.val := by
    intro m
    refine ⟨UInt8.ofNat (digit m).toNat, ?_⟩
    revert m
    decide
  exact hall ⟨n, h⟩

/-- A byte is written as two bytes, whose values give it back. -/
theorem utf8_encode_cons (b : UInt8) (bytes : Bytes) :
    ∃ high low, utf8 (encode (b :: bytes)) = high :: low :: utf8 (encode bytes)
      ∧ value? high = some (b.toNat / 16) ∧ value? low = some (b.toNat % 16) := by
  have hb : b.toNat < 256 := b.toNat_lt
  obtain ⟨high, hhigh, hh⟩ := value?_digit (n := b.toNat / 16) (by omega)
  obtain ⟨low, hlow, hl⟩ := value?_digit (n := b.toNat % 16) (by omega)
  refine ⟨high, low, ?_, hh, hl⟩
  simp [utf8, encode, hhigh, hlow]

theorem decodePairs_encode (bytes : Bytes) (position : Nat) :
    decodePairs position (utf8 (encode bytes)) = .ok bytes := by
  induction bytes generalizing position with
  | nil => rfl
  | cons b rest ih =>
    obtain ⟨high, low, he, hh, hl⟩ := utf8_encode_cons b rest
    have hbyte : UInt8.ofNat (16 * (b.toNat / 16) + b.toNat % 16) = b := by
      rw [Nat.div_add_mod, UInt8.ofNat_toNat]
    rw [he, decodePairs, hh, hl]
    simp only [ih, hbyte]

theorem length_utf8_encode (bytes : Bytes) : (utf8 (encode bytes)).length = 2 * bytes.length := by
  induction bytes with
  | nil => rfl
  | cons b rest ih =>
    obtain ⟨high, low, he, -⟩ := utf8_encode_cons b rest
    rw [he, List.length_cons, List.length_cons, List.length_cons, ih]
    omega

/-- What is written is read back. -/
theorem decode_encode (bytes : Bytes) : decode (utf8 (encode bytes)) = .ok bytes := by
  have hlength := length_utf8_encode bytes
  rw [decode, if_neg (by omega), decodePairs_encode]

end Hex

end StakeGuard.Text
