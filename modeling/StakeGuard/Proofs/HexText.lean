import Mathlib.Data.UInt
import StakeGuard.Text.Hex

/-!
# Hexadecimal texts

Digits of either case are read, and the lower-case ones are written. Bytes are read from a text exactly
where the text in lower case is what they are written as (`Text.Hex.decode_utf8_eq_ok_iff`), and all other
texts are refused for the fault that is met first (`Text.Hex.decode_eq_error_iff`). Bytes lie in the order
of the texts that they are written as (`Text.Hex.compare_utf8_encode`).
-/

namespace StakeGuard.Text.Hex

variable {b : UInt8} {bytes digits : Bytes} {text : List Char} {c : Char} {m n position : Nat}
  {fault : Error}

/-! ## Digits -/

/-- A hexadecimal digit of either case. -/
def IsDigit (c : Char) : Prop := '0' ≤ c ∧ c ≤ '9' ∨ 'a' ≤ c ∧ c ≤ 'f' ∨ 'A' ≤ c ∧ c ≤ 'F'

instance : DecidablePred IsDigit := fun c =>
  inferInstanceAs (Decidable ('0' ≤ c ∧ c ≤ '9' ∨ 'a' ≤ c ∧ c ≤ 'f' ∨ 'A' ≤ c ∧ c ≤ 'F'))

/-- The character that has a byte for its code. -/
def character (b : UInt8) : Char := Char.ofNat b.toNat

theorem isDigit_iff_toNat :
    IsDigit c ↔ 48 ≤ c.toNat ∧ c.toNat ≤ 57 ∨ 97 ≤ c.toNat ∧ c.toNat ≤ 102 ∨
      65 ≤ c.toNat ∧ c.toNat ≤ 70 := Iff.rfl

theorem toNat_lt_of_isDigit (h : IsDigit c) : c.toNat < 128 := by
  rw [isDigit_iff_toNat] at h
  omega

theorem toNat_ofNat (h : n < 256) : (Char.ofNat n).toNat = n := by
  have hvalid : n.isValidChar := .inl (Nat.lt_trans h (by decide))
  rw [Char.ofNat, dif_pos hvalid]
  rfl

theorem toNat_character (b : UInt8) : (character b).toNat = b.toNat := toNat_ofNat b.toNat_lt

theorem character_ofNat_toNat (h : c.toNat < 256) : character (.ofNat c.toNat) = c := by
  rw [character, UInt8.toNat_ofNat_of_lt' h, Char.ofNat_toNat]

theorem toNat_digit (h : n < 16) : (digit n).toNat = if n < 10 then 48 + n else 87 + n := by
  unfold digit
  split
  · exact toNat_ofNat (by omega)
  · exact toNat_ofNat (by omega)

theorem isDigit_digit (h : n < 16) : IsDigit (digit n) := by
  rw [isDigit_iff_toNat, toNat_digit h]
  split <;> omega

theorem toNat_toLower (c : Char) :
    c.toLower.toNat = if 65 ≤ c.toNat ∧ c.toNat ≤ 90 then c.toNat + 32 else c.toNat := by
  unfold Char.toLower
  split
  next hupper =>
    have hrange : 65 ≤ c.toNat ∧ c.toNat ≤ 90 := hupper
    rw [if_pos hrange]
    refine (UInt32.toNat_add c.val 32).trans (Nat.mod_eq_of_lt ?_)
    exact Nat.lt_of_le_of_lt (Nat.add_le_add_right hrange.2 32) (by decide)
  next hkept =>
    have hrange : ¬(65 ≤ c.toNat ∧ c.toNat ≤ 90) := hkept
    rw [if_neg hrange]

/-- The characters that are a given digit in lower case: one for a decimal digit, two for a letter. -/
theorem toLower_eq_digit_iff (hn : n < 16) :
    c.toLower = digit n ↔
      if n < 10 then c.toNat = 48 + n else c.toNat = 87 + n ∨ c.toNat = 55 + n := by
  rw [← Char.toNat_inj, toNat_toLower, toNat_digit hn]
  split_ifs <;> omega

/-- Digits are the characters that are lower-case digits when they are made lower-case. -/
theorem isDigit_iff : IsDigit c ↔ ∃ n < 16, c.toLower = digit n := by
  rw [isDigit_iff_toNat]
  constructor
  · rintro (h | h | h)
    · exact ⟨c.toNat - 48, by omega, (toLower_eq_digit_iff (by omega)).mpr (by split <;> omega)⟩
    · exact ⟨c.toNat - 87, by omega, (toLower_eq_digit_iff (by omega)).mpr (by split <;> omega)⟩
    · exact ⟨c.toNat - 55, by omega, (toLower_eq_digit_iff (by omega)).mpr (by split <;> omega)⟩
  · rintro ⟨n, hn, h⟩
    rw [toLower_eq_digit_iff hn] at h
    split at h <;> omega

/-- The value of a byte is that of the lower-case digit which the byte stands for in either case. -/
theorem value?_eq_some_iff : value? b = some n ↔ n < 16 ∧ (character b).toLower = digit n := by
  by_cases hn : n < 16
  · rw [toLower_eq_digit_iff hn, toNat_character]
    simp only [value?, hn, true_and]
    split_ifs <;> simp <;> omega
  · simp only [value?, hn, false_and, iff_false]
    split_ifs <;> simp <;> omega

theorem value?_eq_none_iff : value? b = none ↔ ¬IsDigit (character b) := by
  rw [isDigit_iff, Option.eq_none_iff_forall_ne_some]
  simp only [ne_eq, value?_eq_some_iff, not_exists]

/-! ## Digits in UTF-8 -/

theorem utf8EncodeChar_of_lt (h : c.toNat < 128) :
    String.utf8EncodeChar c = [UInt8.ofNat c.toNat] :=
  if_pos (Nat.le_of_lt_succ h)

/-- A character that needs more than one byte has no byte that stands for a character alone. -/
theorem le_of_mem_utf8EncodeChar (h : 128 ≤ c.toNat) (hb : b ∈ String.utf8EncodeChar c) :
    128 ≤ b.toNat := by
  have hlong : ¬c.val.toNat ≤ 127 := Nat.not_le.mpr h
  simp only [String.utf8EncodeChar, if_neg hlong] at hb
  split at hb
  · simp only [List.mem_cons, List.not_mem_nil, or_false] at hb
    obtain rfl | rfl := hb <;> rw [UInt8.toNat_ofNat'] <;> omega
  · split at hb
    · simp only [List.mem_cons, List.not_mem_nil, or_false] at hb
      obtain rfl | rfl | rfl := hb <;> rw [UInt8.toNat_ofNat'] <;> omega
    · simp only [List.mem_cons, List.not_mem_nil, or_false] at hb
      obtain rfl | rfl | rfl | rfl := hb <;> rw [UInt8.toNat_ofNat'] <;> omega

/-- Of the bytes of a character all are digits only if there is one, which stands for the character. -/
theorem forall_isDigit_utf8EncodeChar :
    (∀ b ∈ String.utf8EncodeChar c, IsDigit (character b)) ↔ IsDigit c := by
  by_cases hc : c.toNat < 128
  · rw [utf8EncodeChar_of_lt hc, List.forall_mem_singleton, character_ofNat_toNat (by omega)]
  · constructor
    · intro h
      obtain ⟨b, hb⟩ := List.exists_mem_of_ne_nil _ String.utf8EncodeChar_ne_nil
      have hlt := toNat_lt_of_isDigit (h b hb)
      have hle := le_of_mem_utf8EncodeChar (Nat.not_lt.mp hc) hb
      rw [toNat_character] at hlt
      omega
    · exact fun h => absurd (toNat_lt_of_isDigit h) hc

theorem forall_isDigit_utf8 :
    (∀ b ∈ utf8 text, IsDigit (character b)) ↔ ∀ c ∈ text, IsDigit c := by
  constructor
  · intro h c hc
    exact forall_isDigit_utf8EncodeChar.mp fun b hb => h b (List.mem_flatMap.mpr ⟨c, hc, hb⟩)
  · intro h b hb
    obtain ⟨c, hc, hb⟩ := List.mem_flatMap.mp hb
    exact forall_isDigit_utf8EncodeChar.mpr (h c hc) b hb

/-- Every digit is written in one byte. -/
theorem utf8_eq_map (h : ∀ c ∈ text, IsDigit c) :
    utf8 text = text.map fun c => UInt8.ofNat c.toNat := by
  induction text with
  | nil => rfl
  | cons c rest ih =>
    rw [List.forall_mem_cons] at h
    have hrest := ih h.2
    rw [utf8] at hrest ⊢
    rw [List.flatMap_cons, utf8EncodeChar_of_lt (toNat_lt_of_isDigit h.1), hrest]
    rfl

theorem length_utf8 (h : ∀ c ∈ text, IsDigit c) : (utf8 text).length = text.length := by
  rw [utf8_eq_map h, List.length_map]

theorem map_character_utf8 (h : ∀ c ∈ text, IsDigit c) : (utf8 text).map character = text := by
  rw [utf8_eq_map h, List.map_map]
  refine (List.map_congr_left fun c hc => ?_).trans (List.map_id text)
  exact character_ofNat_toNat (Nat.lt_trans (toNat_lt_of_isDigit (h c hc)) (by decide))

/-! ## Writing -/

theorem encode_cons (b : UInt8) (bytes : Bytes) :
    encode (b :: bytes) = digit (b.toNat / 16) :: digit (b.toNat % 16) :: encode bytes := rfl

/-- Two values below 16 are the halves of one byte. -/
theorem halves_ofNat (hm : m < 16) (hn : n < 16) :
    (UInt8.ofNat (16 * m + n)).toNat / 16 = m ∧ (UInt8.ofNat (16 * m + n)).toNat % 16 = n := by
  have hlt : 16 * m + n < UInt8.size := Nat.lt_of_lt_of_le (by omega) (Nat.le_refl 256)
  rw [UInt8.toNat_ofNat_of_lt' hlt]
  omega

theorem exists_digit_of_mem_encode (h : c ∈ encode bytes) : ∃ n < 16, c = digit n := by
  obtain ⟨b, -, hc⟩ := List.mem_flatMap.mp h
  have hb : b.toNat < 256 := b.toNat_lt
  rw [List.mem_cons, List.mem_singleton] at hc
  obtain hc | hc := hc
  · exact ⟨b.toNat / 16, by omega, hc⟩
  · exact ⟨b.toNat % 16, by omega, hc⟩

theorem isDigit_of_mem_encode (h : c ∈ encode bytes) : IsDigit c := by
  obtain ⟨n, hn, rfl⟩ := exists_digit_of_mem_encode h
  exact isDigit_digit hn

theorem length_encode (bytes : Bytes) : (encode bytes).length = 2 * bytes.length := by
  rw [← length_utf8 fun _ => isDigit_of_mem_encode, length_utf8_encode]

theorem isDigit_of_map_toLower_eq (h : text.map Char.toLower = encode bytes) (hc : c ∈ text) :
    IsDigit c := by
  have hmem : c.toLower ∈ encode bytes := h ▸ List.mem_map_of_mem hc
  exact isDigit_iff.mpr (exists_digit_of_mem_encode hmem)

/-- Two digits for each byte are, in lower case, what some bytes are written as. -/
theorem exists_map_toLower_eq (hlength : text.length = 2 * n) (hdigits : ∀ c ∈ text, IsDigit c) :
    ∃ bytes : Bytes, bytes.length = n ∧ text.map Char.toLower = encode bytes := by
  induction n generalizing text with
  | zero => exact ⟨[], rfl, by rw [List.eq_nil_of_length_eq_zero hlength]; rfl⟩
  | succ n ih =>
    match text, hlength with
    | high :: low :: rest, hlength =>
      simp only [List.length_cons, List.forall_mem_cons] at hlength hdigits
      obtain ⟨hhigh, hlow, hrest⟩ := hdigits
      obtain ⟨k, hk, hhigh⟩ := isDigit_iff.mp hhigh
      obtain ⟨l, hl, hlow⟩ := isDigit_iff.mp hlow
      obtain ⟨bytes, hbytes, hrest⟩ := ih (by omega) hrest
      refine ⟨UInt8.ofNat (16 * k + l) :: bytes, congrArg (· + 1) hbytes, ?_⟩
      obtain ⟨hk, hl⟩ := halves_ofNat hk hl
      rw [encode_cons, hk, hl, List.map_cons, List.map_cons, hhigh, hlow, hrest]

/-! ## Reading -/

/-- A byte is written first where the first two digits have the values of its halves. -/
theorem map_toLower_eq_encode_cons_iff {high low : UInt8} {rest : Bytes} :
    ((high :: low :: rest).map character).map Char.toLower = encode bytes ↔
      ∃ b front, bytes = b :: front ∧ value? high = some (b.toNat / 16) ∧
        value? low = some (b.toNat % 16) ∧ (rest.map character).map Char.toLower = encode front := by
  constructor
  · intro h
    cases bytes with
    | nil => cases h
    | cons b front =>
      have hb : b.toNat < 256 := b.toNat_lt
      rw [encode_cons, List.map_cons, List.map_cons, List.map_cons, List.map_cons, List.cons.injEq,
        List.cons.injEq] at h
      exact ⟨b, front, rfl, value?_eq_some_iff.mpr ⟨by omega, h.1⟩,
        value?_eq_some_iff.mpr ⟨by omega, h.2.1⟩, h.2.2⟩
  · rintro ⟨b, front, rfl, hhigh, hlow, hrest⟩
    rw [encode_cons, List.map_cons, List.map_cons, List.map_cons, List.map_cons, hrest,
      (value?_eq_some_iff.mp hhigh).2, (value?_eq_some_iff.mp hlow).2]

/-- Pairs are read as bytes exactly where, in lower case, they are what the bytes are written as. The
position plays no part. -/
theorem decodePairs_eq_ok_iff :
    decodePairs position digits = .ok bytes ↔
      (digits.map character).map Char.toLower = encode bytes := by
  fun_induction decodePairs position digits generalizing bytes with
  | case1 position => cases bytes <;> simp [encode]
  | case2 position b => cases bytes <;> simp [encode]
  | case3 position high low rest hhigh =>
    rw [map_toLower_eq_encode_cons_iff]
    simp [hhigh]
  | case4 position high low rest h hhigh hlow =>
    rw [map_toLower_eq_encode_cons_iff]
    simp [hlow]
  | case5 position high low rest h hhigh l hlow fault hrest ih =>
    simp only [map_toLower_eq_encode_cons_iff, ← ih, hrest]
    simp
  | case6 position high low rest h hhigh l hlow front hrest ih =>
    simp only [map_toLower_eq_encode_cons_iff, ← ih, hrest, hhigh, hlow, Except.ok.injEq,
      Option.some.injEq]
    constructor
    · rintro rfl
      obtain ⟨hh, hl⟩ := halves_ofNat (value?_eq_some_iff.mp hhigh).1 (value?_eq_some_iff.mp hlow).1
      exact ⟨_, front, rfl, hh.symm, hl.symm, rfl⟩
    · rintro ⟨b, front, rfl, rfl, rfl, rfl⟩
      rw [Nat.div_add_mod, UInt8.ofNat_toNat]

/-- The same for a whole text, whose number of digits is then even. -/
theorem decode_eq_ok_iff :
    decode digits = .ok bytes ↔ (digits.map character).map Char.toLower = encode bytes := by
  unfold decode
  split
  next hodd =>
    refine ⟨nofun, fun h => ?_⟩
    have hlength := congrArg List.length h
    rw [List.length_map, List.length_map, length_encode] at hlength
    omega
  next => exact decodePairs_eq_ok_iff

theorem length_of_decode (h : decode digits = .ok bytes) : digits.length = 2 * bytes.length := by
  have hlength := congrArg List.length (decode_eq_ok_iff.mp h)
  rwa [List.length_map, List.length_map, length_encode] at hlength

/-- A text is read as the bytes that are written as the text in lower case. -/
theorem decode_utf8_eq_ok_iff :
    decode (utf8 text) = .ok bytes ↔ text.map Char.toLower = encode bytes := by
  rw [decode_eq_ok_iff]
  by_cases hdigits : ∀ c ∈ text, IsDigit c
  · rw [map_character_utf8 hdigits]
  · -- neither holds of a text in which a character is no digit
    refine ⟨fun h => ?_, fun h => ?_⟩
    · refine absurd (forall_isDigit_utf8.mp fun b hb => ?_) hdigits
      exact isDigit_of_map_toLower_eq h (List.mem_map_of_mem hb)
    · exact absurd (fun c hc => isDigit_of_map_toLower_eq h hc) hdigits

theorem map_toLower_encode (bytes : Bytes) : (encode bytes).map Char.toLower = encode bytes :=
  decode_utf8_eq_ok_iff.mp (decode_encode bytes)

/-! ## Faults -/

/-- Bytes that cannot be read as digits. -/
def Malformed (digits : Bytes) : Prop :=
  digits.length % 2 = 1 ∨ ∃ b ∈ digits, ¬IsDigit (character b)

/-- What is reported of bytes that cannot be read: that their number is odd, which goes before all else,
and otherwise the first that is no digit. -/
inductive FirstFault : Bytes → Error → Prop where
  | oddLength {digits : Bytes} (hodd : digits.length % 2 = 1) : FirstFault digits .oddLength
  | invalidDigit {front rest : Bytes} {b : UInt8} (heven : (front ++ b :: rest).length % 2 = 0)
      (hfront : ∀ d ∈ front, IsDigit (character d)) (hb : ¬IsDigit (character b)) :
      FirstFault (front ++ b :: rest) (.invalidDigit b front.length)

/-- A text has a first fault exactly if it is malformed. -/
theorem exists_firstFault_iff : (∃ fault, FirstFault digits fault) ↔ Malformed digits := by
  constructor
  · rintro ⟨fault, hodd | ⟨-, -, hb⟩⟩
    · exact .inl hodd
    · exact .inr ⟨_, List.mem_append_right _ List.mem_cons_self, hb⟩
  · intro h
    by_cases hodd : digits.length % 2 = 1
    · exact ⟨_, .oddLength hodd⟩
    · have hfind : (digits.find? fun b => ¬IsDigit (character b)).isSome := by
        simpa using h.resolve_left hodd
      obtain ⟨b, hfirst⟩ := Option.isSome_iff_exists.mp hfind
      obtain ⟨hb, front, rest, rfl, hfront⟩ := List.find?_eq_some_iff_append.mp hfirst
      exact ⟨_, .invalidDigit (by omega) (by simpa using hfront) (by simpa using hb)⟩

theorem exists_value?_eq_some (h : IsDigit (character b)) : ∃ n, value? b = some n :=
  Option.ne_none_iff_exists'.mp fun hnone => value?_eq_none_iff.mp hnone h

/-- Pairs are read up to the one that holds the first byte that is no digit. -/
theorem decodePairs_eq_error {rest : Bytes} (hb : ¬IsDigit (character b)) :
    ∀ {front : Bytes} {position : Nat}, (front ++ b :: rest).length % 2 = 0 →
      (∀ d ∈ front, IsDigit (character d)) →
      decodePairs position (front ++ b :: rest) =
        .error (.invalidDigit b (position + front.length))
  | [], position, heven, _ => by
    cases rest with
    | nil => cases heven
    | cons low rest => simp [decodePairs, value?_eq_none_iff.mpr hb]
  | [high], position, _, hfront => by
    obtain ⟨h, hhigh⟩ := exists_value?_eq_some (hfront high List.mem_cons_self)
    simp [decodePairs, hhigh, value?_eq_none_iff.mpr hb]
  | high :: low :: front, position, heven, hfront => by
    simp only [List.forall_mem_cons] at hfront
    obtain ⟨h, hhigh⟩ := exists_value?_eq_some hfront.1
    obtain ⟨l, hlow⟩ := exists_value?_eq_some hfront.2.1
    simp only [List.cons_append, List.length_cons] at heven ⊢
    have hrest : decodePairs (position + 2) (front ++ b :: rest) =
        .error (.invalidDigit b (position + 2 + front.length)) :=
      decodePairs_eq_error hb (by omega) hfront.2.2
    simp only [decodePairs, hhigh, hlow, hrest]
    congr 2
    omega

/-- The first fault is the one that is reported. -/
theorem FirstFault.decode_eq_error (h : FirstFault digits fault) : decode digits = .error fault := by
  cases h with
  | oddLength hodd => exact if_pos hodd
  | invalidDigit heven hfront hb =>
    rw [decode, if_neg (by omega), decodePairs_eq_error hb heven hfront, Nat.zero_add]

theorem exists_decode_eq_ok (h : ¬Malformed digits) : ∃ bytes, decode digits = .ok bytes := by
  rw [Malformed, not_or] at h
  obtain ⟨heven, hdigits⟩ := h
  have hlength : (digits.map character).length = 2 * (digits.length / 2) := by
    rw [List.length_map]
    omega
  obtain ⟨bytes, -, hbytes⟩ := exists_map_toLower_eq hlength (by simpa using hdigits)
  exact ⟨bytes, decode_eq_ok_iff.mpr hbytes⟩

/-- Every fault that is reported is the first one. -/
theorem decode_eq_error_iff : decode digits = .error fault ↔ FirstFault digits fault := by
  refine ⟨fun h => ?_, FirstFault.decode_eq_error⟩
  by_cases hfault : ∃ fault, FirstFault digits fault
  · obtain ⟨fault', hfault'⟩ := hfault
    rw [hfault'.decode_eq_error] at h
    cases h
    exact hfault'
  · obtain ⟨bytes, hbytes⟩ := exists_decode_eq_ok fun h => hfault (exists_firstFault_iff.mpr h)
    rw [hbytes] at h
    cases h

/-! ## Order -/

/-- Digits lie in the order of their values, as the lower-case letters come after the decimal digits. -/
theorem compare_digit (hm : m < 16) (hn : n < 16) :
    compare (UInt8.ofNat (digit m).toNat) (UInt8.ofNat (digit n).toNat) = compare m n := by
  have hcode {k : Nat} (hk : k < 16) : (UInt8.ofNat (digit k).toNat).toNat = (digit k).toNat :=
    UInt8.toNat_ofNat_of_lt' (Nat.lt_trans (toNat_lt_of_isDigit (isDigit_digit hk)) (by decide))
  rw [UInt8.compare_eq_toNat_compare_toNat, hcode hm, hcode hn, toNat_digit hm, toNat_digit hn]
  simp only [Nat.compare_eq_ite_lt]
  grind

/-- Numbers are compared by their last digits only where the others agree. -/
theorem compare_halves (m n : Nat) :
    (compare (m / 16) (n / 16)).then (compare (m % 16) (n % 16)) = compare m n := by
  obtain hlt | heq | hgt := Nat.lt_trichotomy (m / 16) (n / 16)
  · have hmn : m < n := by omega
    rw [Nat.compare_eq_lt.mpr hlt, Nat.compare_eq_lt.mpr hmn]
    rfl
  · rw [Nat.compare_eq_eq.mpr heq, Ordering.eq_then]
    obtain hlt | hmn | hgt := Nat.lt_trichotomy m n
    · rw [Nat.compare_eq_lt.mpr hlt, Nat.compare_eq_lt.mpr (by omega)]
    · rw [hmn, Nat.compare_eq_eq.mpr rfl, Nat.compare_eq_eq.mpr rfl]
    · rw [Nat.compare_eq_gt.mpr hgt, Nat.compare_eq_gt.mpr (by omega)]
  · have hmn : n < m := by omega
    rw [Nat.compare_eq_gt.mpr hgt, Nat.compare_eq_gt.mpr hmn]
    rfl

/-- So pairs of digits lie in the order of the bytes, and texts in that of the byte strings. -/
theorem compare_encode_codes (xs ys : Bytes) :
    compare ((encode xs).map fun c => UInt8.ofNat c.toNat)
      ((encode ys).map fun c => UInt8.ofNat c.toNat) = compare xs ys := by
  induction xs generalizing ys with
  | nil => cases ys <;> rfl
  | cons x xs ih =>
    cases ys with
    | nil => rfl
    | cons y ys =>
      have hx : x.toNat < 256 := x.toNat_lt
      have hy : y.toNat < 256 := y.toNat_lt
      simp only [encode_cons, List.map_cons, List.compare_cons_cons, ih]
      rw [compare_digit (by omega) (by omega), compare_digit (by omega) (by omega),
        ← Ordering.then_assoc, compare_halves, ← UInt8.compare_eq_toNat_compare_toNat]

/-- Bytes and the texts that they are written as lie in one order. -/
theorem compare_utf8_encode (xs ys : Bytes) :
    compare (utf8 (encode xs)) (utf8 (encode ys)) = compare xs ys := by
  rw [utf8_eq_map fun _ => isDigit_of_mem_encode, utf8_eq_map fun _ => isDigit_of_mem_encode,
    compare_encode_codes]

end StakeGuard.Text.Hex
