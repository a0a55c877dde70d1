import Mathlib.Data.Fintype.BigOperators
import Mathlib.Data.List.FinRange
import StakeGuard.Attestation

/-!
# The bits of a signer set

An encoded signer set is a big-endian number, and its positions are the bits that are set in it
(`positions_ofNumber`). Main statement: bytes of the right count decode to the set of their number's
bits, unless the number has a bit beyond the positions, and then the error names the lowest such bit
(`decode_of_length`).
-/

namespace StakeGuard

namespace SignerSet

/-- A byte string's bits are those of the number it writes. -/
theorem flatMap_bitsOf (bytes : Bytes) :
    bytes.flatMap bitsOf = (List.range (8 * bytes.length)).map (Bytes.toNatLE bytes).testBit := by
  induction bytes with
  | nil => rfl
  | cons b rest ih =>
    have hnumber : Bytes.toNatLE (b :: rest) = 2 ^ 8 * Bytes.toNatLE rest + b.toNat := by
      rw [Bytes.toNatLE]; omega
    have hlow : ∀ i ∈ List.range 8,
        b.toNat.testBit i = (Bytes.toNatLE (b :: rest)).testBit i := by
      intro i hi
      rw [hnumber, Nat.testBit_two_pow_mul_add _ b.toNat_lt, if_pos (List.mem_range.mp hi)]
    have hhigh : ∀ i ∈ List.range (8 * rest.length),
        (Bytes.toNatLE rest).testBit i = (Bytes.toNatLE (b :: rest)).testBit (8 + i) := by
      intro i _
      rw [hnumber, Nat.testBit_two_pow_mul_add _ b.toNat_lt, if_neg (by omega),
        Nat.add_sub_cancel_left]
    rw [List.flatMap_cons, ih, List.length_cons, Nat.mul_succ, Nat.add_comm, List.range_add,
      List.map_append, List.map_map, List.map_congr_left hhigh, bitsOf, List.map_congr_left hlow]
    rfl

/-- The bits that `decode` lists, from the last byte on, are those of the big-endian number. -/
theorem bits_eq (bytes : Bytes) :
    bytes.reverse.flatMap bitsOf =
      (List.range (8 * bytes.length)).map (Bytes.toNatBE bytes).testBit := by
  rw [flatMap_bitsOf, List.length_reverse]
  rfl

theorem toNatBE_lt_two_pow (bytes : Bytes) : Bytes.toNatBE bytes < 2 ^ (8 * bytes.length) := by
  have hcapacity : ∀ width, Bytes.capacity width = 2 ^ (8 * width) := by
    intro width
    induction width with
    | zero => rfl
    | succ width ih => rw [Bytes.capacity, ih, Nat.mul_succ, Nat.pow_add]; omega
  rw [← hcapacity]
  exact Bytes.toNatBE_lt bytes

/-- The positions whose bits are set in a number. -/
def ofNumber (size n : Nat) : SignerSet := ⟨(List.range size).map n.testBit⟩

@[simp] theorem size_ofNumber (size n : Nat) : (ofNumber size n).size = size := by
  simp [ofNumber, SignerSet.size]

/-- A position is in the set of a number exactly when it is below the size and its bit is set. -/
theorem contains_ofNumber {size n : Nat} (i : Nat) :
    (ofNumber size n).contains i ↔ i < size ∧ n.testBit i := by
  rw [contains, ofNumber, List.getElem?_map]
  rcases Nat.lt_or_ge i size with hi | hi
  · simp [hi]
  · simp [Nat.not_lt.mpr hi]

/-- The positions of the set of a number are the bits that are set in it, in ascending order. -/
theorem positions_ofNumber (size n : Nat) :
    (ofNumber size n).positions = (List.range size).filter n.testBit := by
  rw [positions, size_ofNumber]
  refine List.filter_congr fun i hi => ?_
  simp [contains, ofNumber, List.getElem?_range (List.mem_range.mp hi)]

theorem le_of_encodedLength {bytes : Bytes} {size : Nat}
    (h : bytes.length = encodedLength size) : size ≤ 8 * bytes.length := by
  rw [h, encodedLength]; omega

/-- Of bytes that are as many as the positions need, the sets are those whose number has no bit
beyond the positions; otherwise the lowest such bit is named. -/
theorem decode_of_length {bytes : Bytes} {size : Nat} (hlength : bytes.length = encodedLength size) :
    decode bytes size =
      if h : 2 ^ size ≤ Bytes.toNatBE bytes then
        .error (.extraBit (Nat.find (Nat.exists_ge_and_testBit_of_ge_two_pow h)) size)
      else .ok (ofNumber size (Bytes.toNatBE bytes)) := by
  set n := Bytes.toNatBE bytes with hn
  obtain ⟨extra, hextra⟩ := Nat.exists_eq_add_of_le (le_of_encodedLength hlength)
  -- the bits beyond the positions are those of the number from there on
  have hbits : bytes.reverse.flatMap bitsOf = (List.range (size + extra)).map n.testBit := by
    rw [bits_eq, hextra]
  have hdrop : (bytes.reverse.flatMap bitsOf).drop size =
      (List.range extra).map fun i => n.testBit (size + i) := by
    rw [hbits, List.range_add, List.map_append, List.map_map]
    exact List.drop_left' (by simp)
  have htake : (bytes.reverse.flatMap bitsOf).take size = (List.range size).map n.testBit := by
    rw [hbits, List.range_add, List.map_append]
    exact List.take_left' (by simp)
  have hmem : ∀ i, n.testBit i = true → i < size + extra := by
    intro i hi
    by_contra hge
    have hlt : n < 2 ^ i := (toNatBE_lt_two_pow bytes).trans_le
      (Nat.pow_le_pow_right (by decide) (by omega))
    rw [Nat.testBit_lt_two_pow hlt] at hi
    cases hi
  simp only [decode, hlength, ne_eq, not_true_eq_false, if_false, hdrop, htake]
  split
  · next i hi =>
    obtain ⟨hlen, hset, hfirst⟩ := List.findIdx?_eq_some_iff_getElem.mp hi
    simp only [List.getElem_map, List.getElem_range, id_eq] at hset hfirst
    have hle : 2 ^ size ≤ n := (Nat.pow_le_pow_right (by decide) (by omega)).trans
      (Nat.ge_two_pow_of_testBit hset)
    rw [dif_pos hle]
    congr 2
    refine ((Nat.find_eq_iff _).mpr ⟨⟨by omega, hset⟩, ?_⟩).symm
    rintro j hj ⟨hge, hbit⟩
    refine hfirst (j - size) (by omega) ?_
    rwa [Nat.add_sub_of_le hge]
  · next hnone =>
    rw [dif_neg]
    · rfl
    intro hle
    obtain ⟨i, hge, hbit⟩ := Nat.exists_ge_and_testBit_of_ge_two_pow hle
    have hi := hmem i hbit
    have := List.findIdx?_eq_none_iff.mp hnone (n.testBit i)
      (List.mem_map.mpr ⟨i - size, List.mem_range.mpr (by omega), by rw [Nat.add_sub_of_le hge]⟩)
    simp [hbit] at this

end SignerSet

end StakeGuard
