import StakeGuard.Proofs.SignerBits

/-!
# Encoded signer sets

The flags of a signer set are the binary digits of the number that its encoded form writes
(`SignerSet.toNatBE_encode`), so what is encoded is read back as it was (`SignerSet.decode_encode`) and
nothing else is read as that set (`SignerSet.decode_eq_ok_iff`). Main statement: the byte strings that
decode are those of the right length whose number has no digit beyond the positions; each decodes to
the set of its digits, and no set is decoded from two (`SignerSet.one_form_per_set`).
-/

namespace StakeGuard

namespace SignerSet

/-! ## Insertion -/

@[simp] theorem size_empty (size : Nat) : (empty size).size = size := by
  simp [empty, SignerSet.size]

@[simp] theorem contains_empty (size position : Nat) : (empty size).contains position = false := by
  rw [contains, empty, List.getElem?_replicate]
  split <;> rfl

theorem exists_insert {s : SignerSet} {position : Nat} (h : position < s.size) :
    ∃ s', s.insert position = .ok s' ∧ s'.size = s.size ∧
      ∀ i, s'.contains i ↔ s.contains i ∨ i = position := by
  refine ⟨⟨s.flags.set position true⟩, if_pos h, by simp [size], fun i => ?_⟩
  rw [contains, contains, List.getElem?_set]
  by_cases hi : position = i
  · rw [if_pos hi, if_pos (hi ▸ h)]
    simp [hi]
  · rw [if_neg hi]
    simp [Ne.symm hi]

/-! ## The encoded form -/

/-- The number with the given binary digits, least significant first. -/
def number (bits : List Bool) : Nat := bits.foldr (fun bit n => bit.toNat + 2 * n) 0

theorem number_cons (bit : Bool) (bits : List Bool) :
    number (bit :: bits) = bit.toNat + 2 * number bits := rfl

theorem testBit_number (bits : List Bool) (i : Nat) :
    (number bits).testBit i = bits[i]?.getD false := by
  induction bits generalizing i with
  | nil => simp [number]
  | cons bit rest ih =>
    cases i with
    | zero =>
      rw [number_cons, Nat.testBit_zero, Nat.add_mul_mod_self_left]
      cases bit <;> rfl
    | succ i =>
      have hhalf : (bit.toNat + 2 * number rest) / 2 = number rest := by
        have hbit := bit.toNat_lt
        omega
      rw [number_cons, Nat.testBit_succ, hhalf, ih, List.getElem?_cons_succ]

theorem number_lt (bits : List Bool) : number bits < 2 ^ bits.length := by
  induction bits with
  | nil => decide
  | cons bit rest ih =>
    have hbit := bit.toNat_lt
    rw [number_cons, List.length_cons, Nat.pow_succ]
    omega

/-- The digits from a place on count as often as the place says. -/
theorem number_take_add_number_drop (place : Nat) (bits : List Bool) :
    number (bits.take place) + 2 ^ place * number (bits.drop place) = number bits := by
  induction place generalizing bits with
  | zero => simp [number]
  | succ place ih =>
    cases bits with
    | nil => simp [number]
    | cons bit rest =>
      rw [List.take_succ_cons, List.drop_succ_cons, number_cons, number_cons, ← ih rest,
        Nat.pow_succ, Nat.mul_comm (2 ^ place) 2, Nat.mul_assoc]
      omega

theorem toNat_byteOf {bits : List Bool} (h : bits.length ≤ 8) :
    (byteOf bits).toNat = number bits := by
  have hlt : number bits < 256 :=
    (number_lt bits).trans_le (Nat.pow_le_pow_right (by decide) h)
  rw [byteOf, UInt8.toNat_ofNat']
  exact Nat.mod_eq_of_lt hlt

@[simp] theorem length_pack (count : Nat) (bits : List Bool) : (pack count bits).length = count := by
  induction count generalizing bits with
  | zero => rfl
  | succ count ih => rw [pack, List.length_cons, ih]

/-- Packing flags into bytes keeps the number that they write. -/
theorem toNatLE_pack (count : Nat) (bits : List Bool) :
    Bytes.toNatLE (pack count bits) = number (bits.take (8 * count)) := by
  induction count generalizing bits with
  | zero => rfl
  | succ count ih =>
    have hsplit := number_take_add_number_drop 8 (bits.take (8 * (count + 1)))
    rw [List.take_take, List.drop_take, Nat.min_eq_left (by omega),
      show 8 * (count + 1) - 8 = 8 * count by omega] at hsplit
    rw [pack, Bytes.toNatLE, ih, toNat_byteOf (by simp), ← hsplit]
    rfl

theorem length_encode (s : SignerSet) : s.encode.length = encodedLength s.size := by
  rw [encode, List.length_reverse, length_pack]

/-- The encoded form writes the number whose digits are the flags. -/
theorem toNatBE_encode (s : SignerSet) : Bytes.toNatBE s.encode = number s.flags := by
  have hfits : s.flags.length ≤ 8 * encodedLength s.size := by
    rw [encodedLength, size]
    omega
  rw [Bytes.toNatBE, encode, List.reverse_reverse, toNatLE_pack, List.take_of_length_le hfits]

/-- The digits of the encoded form are the positions in the set. -/
theorem testBit_toNatBE_encode (s : SignerSet) (position : Nat) :
    (Bytes.toNatBE s.encode).testBit position = s.contains position := by
  rw [toNatBE_encode, testBit_number, contains]

/-- The set of the digits of its number is the set itself. -/
theorem ofNumber_number (s : SignerSet) : ofNumber s.size (number s.flags) = s := by
  rw [ofNumber]
  congr 1
  refine List.ext_getElem (by simp [size]) fun i _ hi => ?_
  simp [testBit_number, hi]

/-- What is encoded is read back as it was. -/
theorem decode_encode (s : SignerSet) : decode s.encode s.size = .ok s := by
  have hfits : ¬2 ^ s.size ≤ Bytes.toNatBE s.encode := by
    rw [toNatBE_encode]
    exact Nat.not_le.mpr (number_lt s.flags)
  rw [decode_of_length (length_encode s), dif_neg hfits, toNatBE_encode, ofNumber_number]

theorem number_ofNumber {size n : Nat} (h : n < 2 ^ size) : number (ofNumber size n).flags = n := by
  refine Nat.eq_of_testBit_eq fun i => ?_
  rw [testBit_number, ← contains, Bool.eq_iff_iff, contains_ofNumber]
  refine ⟨And.right, fun hbit => ⟨?_, hbit⟩⟩
  exact (Nat.pow_lt_pow_iff_right (by decide)).mp ((Nat.ge_two_pow_of_testBit hbit).trans_lt h)

/-- A set is decoded from its encoded form only. -/
theorem decode_eq_ok_iff {bytes : Bytes} {size : Nat} {s : SignerSet} :
    decode bytes size = .ok s ↔ s.size = size ∧ s.encode = bytes := by
  constructor
  · intro h
    have hlength : bytes.length = encodedLength size := by
      by_contra hne
      rw [decode, if_pos hne] at h
      cases h
    rw [decode_of_length hlength] at h
    split at h
    · cases h
    next hfits =>
      cases h
      refine ⟨size_ofNumber .., Bytes.eq_of_toNatBE_eq ?_ ?_⟩
      · rw [length_encode, size_ofNumber, hlength]
      · rw [toNatBE_encode, number_ofNumber (Nat.lt_of_not_le hfits)]
  · rintro ⟨rfl, rfl⟩
    exact decode_encode s

/-- The byte strings that decode are those of the right length without a digit beyond the positions. -/
theorem exists_decode_iff {bytes : Bytes} {size : Nat} :
    (∃ s, decode bytes size = .ok s) ↔
      bytes.length = encodedLength size ∧ Bytes.toNatBE bytes < 2 ^ size := by
  constructor
  · rintro ⟨s, hs⟩
    obtain ⟨rfl, rfl⟩ := decode_eq_ok_iff.mp hs
    exact ⟨length_encode s, toNatBE_encode s ▸ number_lt s.flags⟩
  · rintro ⟨hlength, hlt⟩
    exact ⟨_, (decode_of_length hlength).trans (dif_neg (Nat.not_le.mpr hlt))⟩

/-! ## Members -/

theorem map_contains_range (s : SignerSet) : (List.range s.size).map s.contains = s.flags := by
  refine List.ext_getElem (by simp [size]) fun i _ hi => ?_
  simp [contains, hi]

/-- Sets over as many positions with the same members are equal. -/
theorem eq_of_contains_iff {s s' : SignerSet} (hsize : s.size = s'.size)
    (h : ∀ i, s.contains i ↔ s'.contains i) : s = s' := by
  have hcontains : s.contains = s'.contains := funext fun i => Bool.eq_iff_iff.mpr (h i)
  have hflags : s.flags = s'.flags := by
    rw [← map_contains_range s, ← map_contains_range s', hsize, hcontains]
  cases s; cases s'; cases hflags; rfl

theorem lt_size_of_contains {s : SignerSet} {i : Nat} (h : s.contains i) : i < s.size := by
  by_contra hi
  rw [contains, List.getElem?_eq_none (Nat.not_lt.mp hi)] at h
  cases h

theorem mem_positions_iff {s : SignerSet} {i : Nat} : i ∈ s.positions ↔ s.contains i := by
  rw [positions, List.mem_filter, List.mem_range]
  exact ⟨And.right, fun h => ⟨lt_size_of_contains h, h⟩⟩

theorem positions_ascending (s : SignerSet) : s.positions.Pairwise (· < ·) :=
  List.pairwise_lt_range.filter _

theorem count_eq_length_positions (s : SignerSet) : s.count = s.positions.length := by
  rw [count, ← map_contains_range, List.count, List.countP_map, positions,
    ← List.countP_eq_length_filter]
  refine List.countP_congr fun i _ => ?_
  simp

theorem isEmpty_iff_positions {s : SignerSet} : s.isEmpty ↔ s.positions = [] := by
  rw [isEmpty, ← map_contains_range, positions, List.filter_eq_nil_iff]
  simp

/-! ## Sets that are built up -/

/-- The set after an attempt to add a position, which changes nothing where there is none such. -/
def tryInsert (s : SignerSet) (position : Nat) : SignerSet :=
  match s.insert position with
  | .ok s' => s'
  | .error _ => s

/-- The set that attempts to add some positions make of the empty one. -/
def built (size : Nat) (positions : List Nat) : SignerSet := positions.foldl tryInsert (empty size)

theorem contains_tryInsert (s : SignerSet) (position : Nat) :
    (s.tryInsert position).size = s.size ∧
      ∀ i, (s.tryInsert position).contains i ↔ s.contains i ∨ i < s.size ∧ i = position := by
  rw [tryInsert]
  rcases Nat.lt_or_ge position s.size with hlt | hge
  · obtain ⟨s', hinsert, hsize, hcontains⟩ := exists_insert hlt
    rw [hinsert]
    refine ⟨hsize, fun i => (hcontains i).trans (or_congr_right ?_)⟩
    exact ⟨fun hi => ⟨hi ▸ hlt, hi⟩, And.right⟩
  · rw [insert, if_neg (Nat.not_lt.mpr hge)]
    refine ⟨rfl, fun i => ⟨.inl, ?_⟩⟩
    rintro (hi | ⟨hi, rfl⟩)
    · exact hi
    · exact absurd hi (Nat.not_lt.mpr hge)

/-- Inserting one after the other puts in the positions in range, in whatever order and however often.
-/
theorem contains_foldl_tryInsert (s : SignerSet) (positions : List Nat) :
    (positions.foldl tryInsert s).size = s.size ∧
      ∀ i, (positions.foldl tryInsert s).contains i ↔ s.contains i ∨ i < s.size ∧ i ∈ positions := by
  induction positions generalizing s with
  | nil => exact ⟨rfl, fun i => by simp⟩
  | cons position rest ih =>
    obtain ⟨hsize, hcontains⟩ := contains_tryInsert s position
    obtain ⟨hsize', hcontains'⟩ := ih (s.tryInsert position)
    refine ⟨hsize'.trans hsize, fun i => ?_⟩
    rw [List.foldl_cons, hcontains', hcontains, hsize, List.mem_cons, and_or_left, or_assoc]

@[simp] theorem size_built (size : Nat) (positions : List Nat) : (built size positions).size = size :=
  (contains_foldl_tryInsert _ _).1.trans (size_empty size)

theorem contains_built {size : Nat} {positions : List Nat} (i : Nat) :
    (built size positions).contains i ↔ i < size ∧ i ∈ positions := by
  rw [built, (contains_foldl_tryInsert _ _).2, contains_empty, size_empty]
  simp

/-! ## One form for each set -/

/-- A set over `size` positions says of each whether its digit is set in a number, and its listing, its
count and its test for emptiness all say the same. -/
structure HasDigits (s : SignerSet) (size n : Nat) : Prop where
  size_eq : s.size = size
  contains_iff : ∀ i, s.contains i ↔ i < size ∧ n.testBit i
  mem_positions_iff : ∀ i, i ∈ s.positions ↔ i < size ∧ n.testBit i
  positions_ascending : s.positions.Pairwise (· < ·)
  count_eq : s.count = s.positions.length
  isEmpty_iff : s.isEmpty ↔ s.positions = []

theorem hasDigits_encode (s : SignerSet) : s.HasDigits s.size (Bytes.toNatBE s.encode) := by
  have hcontains : ∀ i, s.contains i ↔ i < s.size ∧ (Bytes.toNatBE s.encode).testBit i := by
    intro i
    rw [testBit_toNatBE_encode]
    exact ⟨fun h => ⟨lt_size_of_contains h, h⟩, And.right⟩
  exact {
    size_eq := rfl
    contains_iff := hcontains
    mem_positions_iff := fun i => SignerSet.mem_positions_iff.trans (hcontains i)
    positions_ascending := s.positions_ascending
    count_eq := s.count_eq_length_positions
    isEmpty_iff := isEmpty_iff_positions }

/-- **Each signer set has exactly one form.** Bytes decode over `size` positions where they are as few
as can hold a bit for each and their number, the most significant byte first, has no digit beyond them.
They decode to the set of its digits, and it is encoded as these bytes again, so that no other bytes
decode to it. Whatever set is built by adding positions to the empty one is decoded from the bytes that
it is encoded as. -/
theorem one_form_per_set (bytes : Bytes) (size : Nat) :
    ((∃ s, decode bytes size = .ok s) ↔
      bytes.length = (size + 7) / 8 ∧ Bytes.toNatBE bytes < 2 ^ size) ∧
    (∀ s, decode bytes size = .ok s →
      s.HasDigits size (Bytes.toNatBE bytes) ∧ s.encode = bytes ∧
        ∀ bytes' size', decode bytes' size' = .ok s → bytes' = bytes) ∧
    ∀ positions, (built size positions).encode.length = (size + 7) / 8 ∧
      decode (built size positions).encode size = .ok (built size positions) ∧
      ∀ i, (built size positions).contains i ↔ i < size ∧ i ∈ positions := by
  refine ⟨exists_decode_iff, fun s hs => ?_, fun positions => ?_⟩
  · obtain ⟨rfl, rfl⟩ := decode_eq_ok_iff.mp hs
    refine ⟨s.hasDigits_encode, rfl, fun bytes' size' hs' => ?_⟩
    exact (decode_eq_ok_iff.mp hs').2.symm
  · have hsize := size_built size positions
    refine ⟨?_, decode_eq_ok_iff.mpr ⟨hsize, rfl⟩, contains_built⟩
    rw [length_encode, hsize, encodedLength]

/-- Positions 0 and 9 of ten are the last bit of the second byte and the second-last of the first. -/
example : (built 10 [9, 0, 10]).encode = [2, 1] ∧ decode [2, 1] 10 = .ok (built 10 [9, 0]) := by decide

end SignerSet

end StakeGuard
