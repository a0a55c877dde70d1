/-!
# Byte strings

Byte strings, byte strings of a fixed width with their lexicographic order, and the two ways to
write a number in bytes. Main statements: reading inverts writing for every number that fits
(`toNatLE_ofNatLE`, `toNatBE_ofNatBE`), and writing inverts reading for every byte string
(`ofNatLE_toNatLE`, `ofNatBE_toNatBE`), so each number has exactly one form of each width.
-/

namespace StakeGuard

/-- Byte strings of any length. -/
abbrev Bytes := List UInt8

namespace Bytes

/-- The number whose digits in base 256 are the bytes, least significant first. -/
def toNatLE : Bytes → Nat
  | [] => 0
  | b :: rest => b.toNat + 256 * toNatLE rest

/-- The last `width` digits of a number in base 256, least significant first. -/
def ofNatLE : (width : Nat) → Nat → Bytes
  | 0, _ => []
  | width + 1, n => UInt8.ofNat n :: ofNatLE width (n / 256)

/-- The number whose digits in base 256 are the bytes, most significant first. -/
def toNatBE (bytes : Bytes) : Nat := toNatLE bytes.reverse

/-- The last `width` digits of a number in base 256, most significant first. -/
def ofNatBE (width n : Nat) : Bytes := (ofNatLE width n).reverse

/-- The number of byte strings of a width, which are as many as the numbers they write. -/
def capacity : (width : Nat) → Nat
  | 0 => 1
  | width + 1 => 256 * capacity width

@[simp] theorem length_ofNatLE (width n : Nat) : (ofNatLE width n).length = width := by
  induction width generalizing n with
  | zero => rfl
  | succ width ih => simp [ofNatLE, ih]

@[simp] theorem length_ofNatBE (width n : Nat) : (ofNatBE width n).length = width := by
  simp [ofNatBE]

theorem toNatLE_lt (bytes : Bytes) : toNatLE bytes < capacity bytes.length := by
  induction bytes with
  | nil => decide
  | cons b rest ih =>
    have hb : b.toNat < 256 := b.toNat_lt
    simp only [toNatLE, List.length_cons, capacity]
    omega

theorem toNatBE_lt (bytes : Bytes) : toNatBE bytes < capacity bytes.length := by
  simpa [toNatBE] using toNatLE_lt bytes.reverse

theorem toNatLE_ofNatLE {width n : Nat} (h : n < capacity width) :
    toNatLE (ofNatLE width n) = n := by
  induction width generalizing n with
  | zero => exact (Nat.lt_one_iff.mp h).symm
  | succ width ih =>
    rw [capacity] at h
    rw [ofNatLE, toNatLE, ih (by omega), UInt8.toNat_ofNat']
    omega

theorem ofNatLE_toNatLE (bytes : Bytes) : ofNatLE bytes.length (toNatLE bytes) = bytes := by
  induction bytes with
  | nil => rfl
  | cons b rest ih =>
    have hb : b.toNat < 256 := b.toNat_lt
    have hq : (b.toNat + 256 * toNatLE rest) / 256 = toNatLE rest := by omega
    simp only [toNatLE, List.length_cons, ofNatLE, hq, ih, List.cons.injEq, and_true]
    apply UInt8.toNat_inj.mp
    rw [UInt8.toNat_ofNat']
    omega

/-- A number that fits the width is read back from its big-endian form. -/
theorem toNatBE_ofNatBE {width n : Nat} (h : n < capacity width) :
    toNatBE (ofNatBE width n) = n := by
  rw [toNatBE, ofNatBE, List.reverse_reverse, toNatLE_ofNatLE h]

/-- The number of a byte string, written in as many bytes, is the byte string. -/
theorem ofNatBE_toNatBE (bytes : Bytes) : ofNatBE bytes.length (toNatBE bytes) = bytes := by
  have h := ofNatLE_toNatLE bytes.reverse
  rw [List.length_reverse] at h
  rw [ofNatBE, toNatBE, h, List.reverse_reverse]

/-- Byte strings of one length that write one number are equal. -/
theorem eq_of_toNatBE_eq {a b : Bytes} (hlength : a.length = b.length) (h : toNatBE a = toNatBE b) :
    a = b :=
  calc
    a = ofNatBE a.length (toNatBE a) := (ofNatBE_toNatBE a).symm
    _ = ofNatBE b.length (toNatBE b) := by rw [hlength, h]
    _ = b := ofNatBE_toNatBE b

end Bytes

/-- A byte string of exactly `width` bytes. -/
structure FixedBytes (width : Nat) where
  bytes : Bytes
  length_bytes : bytes.length = width
deriving DecidableEq

namespace FixedBytes

/-- The byte string itself, where it has the right width. -/
def ofBytes? (width : Nat) (bytes : Bytes) : Option (FixedBytes width) :=
  if h : bytes.length = width then some ⟨bytes, h⟩ else none

/-- The byte string of zeros. -/
def zero (width : Nat) : FixedBytes width := ⟨List.replicate width 0, by simp⟩

/-- The number in big-endian form; digits that do not fit the width are dropped. -/
def ofNat (width n : Nat) : FixedBytes width := ⟨Bytes.ofNatBE width n, by simp⟩

instance (width : Nat) : Inhabited (FixedBytes width) := ⟨zero width⟩

instance (width : Nat) : Ord (FixedBytes width) := ⟨fun a b => compare a.bytes b.bytes⟩

@[ext] theorem ext {width : Nat} {a b : FixedBytes width} (h : a.bytes = b.bytes) : a = b := by
  cases a; cases b; cases h; rfl

@[simp] theorem ofBytes?_bytes {width : Nat} (a : FixedBytes width) :
    ofBytes? width a.bytes = some a := by
  simp [ofBytes?, a.length_bytes]

/-- What is made of a byte string has just these bytes; there is nothing else to choose. -/
theorem ofBytes?_eq_some_iff {width : Nat} {bytes : Bytes} {a : FixedBytes width} :
    ofBytes? width bytes = some a ↔ a.bytes = bytes := by
  constructor
  · intro h
    unfold ofBytes? at h
    split at h
    · cases h; rfl
    · cases h
  · rintro rfl; exact ofBytes?_bytes a

instance (width : Nat) : Std.TransOrd (FixedBytes width) :=
  inferInstanceAs (Std.TransCmp (compareOn FixedBytes.bytes))

instance (width : Nat) : Std.LawfulEqOrd (FixedBytes width) where
  eq_of_compare h := ext (Std.LawfulEqOrd.eq_of_compare h)

theorem ofBytes?_eq_none_iff {width : Nat} {bytes : Bytes} :
    ofBytes? width bytes = none ↔ bytes.length ≠ width := by
  simp [ofBytes?]

end FixedBytes

end StakeGuard
