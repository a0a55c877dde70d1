import Mathlib.Tactic.SplitIfs
import StakeGuard.Format.Text
import StakeGuard.Proofs.JsonGrammar
import StakeGuard.Proofs.ReadBack

/-!
# What is written as JSON is read back

A value is plain if it is written with nothing superfluous: numbers in as few digits as they need,
strings that denote texts. Main statement: the text of a plain value is read as that value
(`Json.parse_render`).
-/

namespace StakeGuard.Json

/-- Values as a writer makes them: numbers without superfluous digits, strings that denote texts. -/
inductive Plain : Json → Prop
  | null : Plain null
  | bool (value : Bool) : Plain (bool value)
  | number (n : Nat) : Plain (ofNat n)
  | string (s : String) : Plain (string (.ofString s))
  | array {items : List Json} (hitems : ∀ item ∈ items, Plain item) : Plain (array items)
  | object {members : List (JsonString × Json)}
    (hkeys : ∀ member ∈ members, ∃ s, member.1 = JsonString.ofString s)
    (hvalues : ∀ member ∈ members, Plain member.2) : Plain (object members)

/-! ## Numbers -/

theorem isDigit_of_mem_toDigits {n : Nat} {c : Char} (h : c ∈ Nat.toDigits 10 n) :
    isDigit c = true := by
  have hdigit := Nat.isDigit_of_mem_toDigits (by decide) (by decide) h
  rw [Char.isDigit_iff_toNat] at hdigit
  exact (isDigit_iff c).mpr hdigit

/-- Only the number zero begins with the digit zero. -/
theorem eq_nil_of_toDigits_eq_cons {n : Nat} {rest : List Char}
    (h : Nat.toDigits 10 n = '0' :: rest) : rest = [] := by
  induction n using Nat.base_induction 10 (by decide) generalizing rest with
  | single d hd =>
    rw [Nat.toDigits_of_lt_base hd] at h
    exact (List.cons.inj h).2.symm
  | digit n d hd hn ih =>
    rw [← Nat.toDigits_append_toDigits (by decide) hn hd] at h
    cases hfront : Nat.toDigits 10 n with
    | nil => exact absurd hfront Nat.toDigits_ne_nil
    | cons c front =>
      rw [hfront, List.cons_append, List.cons.injEq] at h
      have hnil : front = [] := ih (h.1 ▸ hfront)
      rw [hnil, h.1] at hfront
      -- a front that is the digit zero alone would be the number zero
      have hzero : some n = some 0 := by
        rw [← Text.digits?_toDigits n, hfront]
        decide
      exact absurd (Option.some.inj hzero) (Nat.pos_iff_ne_zero.mp hn)

theorem numeral_toDigits (n : Nat) : Numeral (Nat.toDigits 10 n) := by
  have hzero : (Nat.toDigits 10 n).head? = some '0' → Nat.toDigits 10 n = ['0'] := by
    intro hhead
    obtain ⟨rest, hdigits⟩ := List.head?_eq_some_iff.mp hhead
    rw [hdigits, eq_nil_of_toDigits_eq_cons hdigits]
  have hnumeral := Numeral.intro (.inl rfl)
    ⟨Nat.toDigits_ne_nil, fun c hc => isDigit_of_mem_toDigits hc⟩ hzero .none .none
  rwa [List.nil_append, List.append_nil, List.append_nil] at hnumeral

/-! ## Strings -/

theorem not_isSurrogate (c : Char) : JsonString.isSurrogate c.toNat = false := by
  have hvalid := c.valid
  simp only [UInt32.isValidChar, Nat.isValidChar] at hvalid
  simp [JsonString.isSurrogate]
  have : c.toNat = c.val.toNat := rfl
  omega

theorem isHex_digit : ∀ n < 16, IsHex (Text.Hex.digit n) n := by
  unfold IsHex
  decide

theorem units_unitEscape {n : Nat} (h : n < 0x10000) {us : List Nat} {text : List Char}
    (hrest : Units us text) : Units (n :: us) (unitEscape n ++ text) := by
  have hn : 4096 * (n / 4096) + 256 * (n / 256 % 16) + 16 * (n / 16 % 16) + n % 16 = n := by omega
  have hhex := Units.hex (isHex_digit (n / 4096) (by omega)) (isHex_digit (n / 256 % 16) (by omega))
    (isHex_digit (n / 16 % 16) (by omega)) (isHex_digit (n % 16) (by omega)) hrest
  rwa [hn] at hhex

/-- A character is the one unit that it is written for. -/
theorem units_writePoint (c : Char) {us : List Nat} {text : List Char} (h : Units us text) :
    Units (c.toNat :: us) (writePoint c.toNat ++ text) := by
  unfold writePoint
  split_ifs with hquote hescape hback htab hline hfeed hreturn hunit
  · rw [hquote]; exact .escape (by decide) h
  · rw [hescape]; exact .escape (by decide) h
  · rw [hback]; exact .escape (by decide) h
  · rw [htab]; exact .escape (by decide) h
  · rw [hline]; exact .escape (by decide) h
  · rw [hfeed]; exact .escape (by decide) h
  · rw [hreturn]; exact .escape (by decide) h
  · rw [not_isSurrogate, Bool.or_false, decide_eq_true_eq] at hunit
    exact units_unitEscape (by omega) h
  · rw [not_isSurrogate, Bool.or_false, decide_eq_true_eq] at hunit
    rw [Char.ofNat_toNat, List.singleton_append]
    refine .plain ?_ ?_ (Nat.not_lt.mp hunit) h
    · rintro rfl; exact hquote rfl
    · rintro rfl; exact hescape rfl

/-- The characters of a text are read back as they are written. -/
theorem units_flatMap_writePoint (s : List Char) :
    Units (s.map Char.toNat) ((s.map Char.toNat).flatMap writePoint) := by
  induction s with
  | nil => exact .nil
  | cons c s ih => exact units_writePoint c ih

/-- A text has no halves of pairs to be joined. -/
theorem joinPairs_map_toNat (s : List Char) : joinPairs (s.map Char.toNat) = s.map Char.toNat := by
  induction s with
  | nil => rfl
  | cons c s ih =>
    cases s with
    | nil => rfl
    | cons d s =>
      have hc := not_isSurrogate c
      rw [JsonString.isSurrogate, Bool.and_eq_false_iff, decide_eq_false_iff_not,
        decide_eq_false_iff_not] at hc
      rw [List.map_cons, List.map_cons, joinPairs, if_neg (by omega), ← List.map_cons, ih]

/-- A text in quotes writes the string that denotes it. -/
theorem quoted_writeString (s : String) : Quoted (.ofString s) (writeString (.ofString s)) := by
  have hquoted := Quoted.intro (units_flatMap_writePoint s.toList)
  rwa [joinPairs_map_toNat] at hquoted

/-! ## Values -/

theorem writtenItems_render {items : List Json} (hne : items ≠ [])
    (h : ∀ item ∈ items, Bare item item.render) : WrittenItems items (renderItems items) := by
  induction items with
  | nil => exact absurd rfl hne
  | cons item items ih =>
    rw [List.forall_mem_cons] at h
    cases items with
    | nil => exact .last h.1.written
    | cons next items => exact .next h.1.written (ih (List.cons_ne_nil next items) h.2)

theorem writtenMember_render {s : String} {value : Json} (h : Bare value value.render) :
    WrittenMember (.ofString s, value) (writeString (.ofString s) ++ ':' :: value.render) :=
  .intro blank_nil (quoted_writeString s) blank_nil h.written

theorem writtenMembers_render {members : List (JsonString × Json)} (hne : members ≠ [])
    (hkeys : ∀ member ∈ members, ∃ s, member.1 = JsonString.ofString s)
    (h : ∀ member ∈ members, Bare member.2 member.2.render) :
    WrittenMembers members (renderMembers members) := by
  induction members with
  | nil => exact absurd rfl hne
  | cons member members ih =>
    obtain ⟨key, value⟩ := member
    simp only [List.forall_mem_cons] at hkeys h
    obtain ⟨⟨s, rfl⟩, hkeys⟩ := hkeys
    have hmember := writtenMember_render (s := s) h.1
    cases members with
    | nil => exact .last hmember
    | cons next members =>
      have hnext := WrittenMembers.next hmember (ih (List.cons_ne_nil next members) hkeys h.2)
      rwa [List.append_assoc, List.cons_append] at hnext

/-- A plain value is written by its own text. -/
theorem Plain.bare {value : Json} (h : Plain value) : Bare value value.render := by
  induction h with
  | null => exact .null
  | bool value => cases value <;> first | exact .isTrue | exact .isFalse
  | number n => exact .number (numeral_toDigits n)
  | string s => exact .string (quoted_writeString s)
  | @array items _ ih =>
    cases items with
    | nil => exact .emptyArray blank_nil
    | cons item items => exact .array (writtenItems_render (List.cons_ne_nil item items) ih)
  | @object members hkeys _ ih =>
    cases members with
    | nil => exact .emptyObject blank_nil
    | cons member members =>
      exact .object (writtenMembers_render (List.cons_ne_nil member members) hkeys ih)

/-- What a plain value is written as is read as that value. -/
theorem parse_render {value : Json} (h : Plain value) : parse value.render = some value :=
  parse_of_written h.bare.written

end StakeGuard.Json
