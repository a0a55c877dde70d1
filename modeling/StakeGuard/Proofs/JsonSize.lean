import StakeGuard.Proofs.JsonText

/-!
# What is read is no longer than its text

Strings stand for no more bytes than they are written in, and arrays have no more items than their
text has bytes (`Json.within_of_parse`). So what a text that fits into memory is read as can be counted
in a word.
-/

namespace StakeGuard

namespace Text

/-- The number of bytes of a text in UTF-8. -/
def size (text : List Char) : Nat := (utf8 text).length

@[simp] theorem size_cons (c : Char) (text : List Char) : size (c :: text) = c.utf8Size + size text := by
  simp [size, utf8]

theorem size_le_of_suffix {rest text : List Char} (h : rest <:+ text) : size rest ≤ size text := by
  obtain ⟨front, rfl⟩ := h
  simp [size, utf8]

end Text

namespace Json

open Text (size size_cons size_le_of_suffix)

/-! ## Strings -/

theorem length_pointBytes {n : Nat} (h : JsonString.isSurrogate n = false) :
    (JsonString.pointBytes n).length = (Char.ofNat n).utf8Size := by
  rw [JsonString.pointBytes, if_neg (by simp [h]), String.length_utf8EncodeChar]

theorem length_pointBytes_of_isSurrogate {n : Nat} (h : JsonString.isSurrogate n = true) :
    (JsonString.pointBytes n).length = 3 := by
  rw [JsonString.pointBytes, if_pos h]
  rfl

theorem length_pointBytes_le (n : Nat) : (JsonString.pointBytes n).length ≤ 4 := by
  cases h : JsonString.isSurrogate n with
  | true => rw [length_pointBytes_of_isSurrogate h]; omega
  | false => rw [length_pointBytes h]; exact Char.utf8Size_le_four _

/-- A unit of four hexadecimal digits stands for at most three bytes. -/
theorem length_pointBytes_of_lt {n : Nat} (hn : n < 0x10000) :
    (JsonString.pointBytes n).length ≤ 3 := by
  cases h : JsonString.isSurrogate n with
  | true => exact Nat.le_of_eq (length_pointBytes_of_isSurrogate h)
  | false =>
    have hvalid : n.isValidChar := by
      simp only [JsonString.isSurrogate, Bool.and_eq_false_iff, decide_eq_false_iff_not] at h
      simp only [Nat.isValidChar]
      omega
    have hval : (Char.ofNat n).val ≤ 0xffff := by
      rw [UInt32.le_iff_toNat_le, Char.ofNat, dif_pos hvalid]
      exact Nat.le_of_lt_succ hn
    rw [length_pointBytes h, Char.utf8Size]
    split
    · omega
    · split
      · omega
      · exact Nat.le_of_eq (if_pos hval)

theorem length_pointBytes_toNat (c : Char) : (JsonString.pointBytes c.toNat).length = c.utf8Size := by
  rw [length_pointBytes (not_isSurrogate c), Char.ofNat_toNat]

theorem hexDigit?_lt {c : Char} {n : Nat} (h : hexDigit? c = some n) : n < 16 := by
  unfold hexDigit? Text.Hex.value? at h
  grind

theorem hexUnit?_lt {a b c d : Char} {n : Nat} (h : hexUnit? a b c d = some n) : n < 0x10000 := by
  simp only [hexUnit?, Option.bind_eq_bind, Option.bind_eq_some_iff, Option.pure_def,
    Option.some.injEq] at h
  obtain ⟨w, hw, x, hx, y, hy, z, hz, rfl⟩ := h
  have := hexDigit?_lt hw
  have := hexDigit?_lt hx
  have := hexDigit?_lt hy
  have := hexDigit?_lt hz
  omega

/-- Joining surrogate pairs makes no string longer: four bytes take the place of twice three. -/
theorem bytes_joinPairs_le (units : List Nat) :
    ((joinPairs units).flatMap JsonString.pointBytes).length ≤
      (units.flatMap JsonString.pointBytes).length := by
  fun_induction joinPairs units with
  | case1 high low rest h ih =>
    have hhigh : JsonString.isSurrogate high = true := by simp [JsonString.isSurrogate]; omega
    have hlow : JsonString.isSurrogate low = true := by simp [JsonString.isSurrogate]; omega
    have hjoined := length_pointBytes_le (0x10000 + 0x400 * (high - 0xd800) + (low - 0xdc00))
    simp only [List.flatMap_cons, List.length_append, length_pointBytes_of_isSurrogate hhigh,
      length_pointBytes_of_isSurrogate hlow]
    omega
  | case2 high low rest h ih => simpa using ih
  | case3 => exact Nat.le_refl _

theorem length_bytes_of_withUnit {unit bound : Nat} {control : Bool} {s : JsonString}
    {result : Option (JsonString × List Char)} {rest : List Char}
    (h : withUnit unit control result = some (s, rest))
    (hunit : (JsonString.pointBytes unit).length ≤ bound) :
    ∃ t, result = some (t, rest) ∧ s.bytes.length ≤ bound + t.bytes.length := by
  cases result with
  | none => cases h
  | some found =>
    obtain ⟨t, tail⟩ := found
    cases h
    refine ⟨t, rfl, ?_⟩
    simp only [JsonString.bytes, List.flatMap_cons, List.length_append]
    omega

theorem length_pointBytes_escaped {e : Char} {unit : Nat} (h : escaped? e = some unit) :
    (JsonString.pointBytes unit).length = 1 := by
  unfold escaped? at h
  split at h <;> cases h <;> rfl

/-- A string stands for no more bytes than it is written in. -/
theorem length_bytes_of_units {text rest : List Char} {s : JsonString}
    (h : units text = some (s, rest)) : s.bytes.length + size rest ≤ size text := by
  fun_induction units text generalizing s with
  | case1 => cases h
  | case2 text =>
    cases h
    simp [JsonString.bytes]
  | case3 => cases h
  | case4 a b c d text unit hunit ih =>
    obtain ⟨t, ht, hlength⟩ :=
      length_bytes_of_withUnit h (length_pointBytes_of_lt (hexUnit?_lt hunit))
    have hrest := ih ht
    have ha := a.utf8Size_pos
    have hb := b.utf8Size_pos
    have hc := c.utf8Size_pos
    simp only [size_cons]
    omega
  | case5 => cases h
  | case6 e text _ unit hunit ih =>
    obtain ⟨t, ht, hlength⟩ :=
      length_bytes_of_withUnit h (Nat.le_of_eq (length_pointBytes_escaped hunit))
    have hrest := ih ht
    have he := e.utf8Size_pos
    simp only [size_cons]
    omega
  | case7 => cases h
  | case8 c text _ _ _ _ ih =>
    obtain ⟨t, ht, hlength⟩ :=
      length_bytes_of_withUnit h (Nat.le_of_eq (length_pointBytes_toNat c))
    have hrest := ih ht
    simp only [size_cons]
    omega

theorem length_bytes_of_readString {text rest : List Char} {s : JsonString}
    (h : readString text = some (s, rest)) : s.bytes.length + size rest ≤ size text := by
  unfold readString at h
  split at h
  · cases h
  · next t tail hunits =>
    cases h
    have hbytes := length_bytes_of_units hunits
    have hjoined := bytes_joinPairs_le t.points
    exact Nat.le_trans (Nat.add_le_add_right hjoined _) hbytes

/-! ## Blanks and numbers -/

theorem size_skip_le (text : List Char) : size (skip text) ≤ size text :=
  size_le_of_suffix (List.dropWhile_suffix isBlank)

variable {text rest written : List Char}

theorem size_lt_of_skip {c : Char} (h : skip text = c :: rest) : size rest < size text := by
  have hskip := size_skip_le text
  have hc := c.utf8Size_pos
  rw [h, size_cons] at hskip
  omega

theorem size_le_of_skip (word : List Char) (h : skip text = word ++ rest) : size rest ≤ size text :=
  Nat.le_trans (size_le_of_suffix (h ▸ List.suffix_append word rest)) (size_skip_le text)

theorem suffix_of_readDigits (h : readDigits text = some (written, rest)) : rest <:+ text := by
  unfold readDigits at h
  grind [List.dropWhile_suffix]

theorem suffix_of_readInteger (h : readInteger text = some (written, rest)) : rest <:+ text := by
  unfold readInteger at h
  split at h
  · cases h
  · exact suffix_of_readDigits h

theorem suffix_of_readFraction (h : readFraction text = some (written, rest)) : rest <:+ text := by
  unfold readFraction at h
  split at h
  · obtain ⟨⟨digits, tail⟩, hdigits, hfound⟩ := Option.map_eq_some_iff.mp h
    cases hfound
    exact (suffix_of_readDigits hdigits).trans (List.suffix_cons _ _)
  · cases h
    exact List.suffix_refl text

theorem readSign_suffix (text : List Char) : (readSign text).2 <:+ text := by
  unfold readSign
  split
  · exact List.suffix_cons _ _
  · exact List.suffix_cons _ _
  · exact List.suffix_refl text

theorem suffix_of_readExponent (h : readExponent text = some (written, rest)) : rest <:+ text := by
  unfold readExponent at h
  split at h
  · next c tail =>
    split at h
    · obtain ⟨⟨digits, tail'⟩, hdigits, hfound⟩ := Option.map_eq_some_iff.mp h
      cases hfound
      exact ((suffix_of_readDigits hdigits).trans (readSign_suffix tail)).trans (List.suffix_cons _ _)
    · cases h
      exact List.suffix_refl _
  · cases h
    exact List.suffix_refl _

theorem suffix_of_readNumber (h : readNumber text = some (written, rest)) : rest <:+ text := by
  simp only [readNumber, Option.bind_eq_bind, Option.bind_eq_some_iff, Option.pure_def,
    Option.some.injEq, Prod.mk.injEq] at h
  obtain ⟨⟨_, text₁⟩, hinteger, ⟨_, text₂⟩, hfraction, ⟨_, text₃⟩, hexponent, -, rfl⟩ := h
  have htail := (suffix_of_readExponent hexponent).trans (suffix_of_readFraction hfraction)
  split at hinteger
  · exact (htail.trans (suffix_of_readInteger hinteger)).trans (List.suffix_cons _ _)
  · exact htail.trans (suffix_of_readInteger hinteger)

/-! ## Values -/

/-- Values whose arrays have fewer items than a bound, and whose strings stand for fewer bytes. -/
inductive Within (bound : Nat) : Json → Prop
  | null : Within bound null
  | bool (value : Bool) : Within bound (bool value)
  | number (written : List Char) : Within bound (number written)
  | string {s : JsonString} (hbytes : s.bytes.length < bound) : Within bound (string s)
  | array {items : List Json} (hlength : items.length < bound)
    (hitems : ∀ item ∈ items, Within bound item) : Within bound (array items)
  | object {members : List (JsonString × Json)}
    (hvalues : ∀ member ∈ members, Within bound member.2) : Within bound (object members)

/-- With so much fuel, values, items and members are read within a bound on the text, and nothing
is left that was not there. -/
structure ReadsWithin (bound fuel : Nat) : Prop where
  value : ∀ {text value rest}, size text < bound → readValue fuel text = some (value, rest) →
    value.Within bound ∧ size rest ≤ size text
  items : ∀ {text items rest}, size text < bound → readItems fuel text = some (items, rest) →
    (∀ item ∈ items, item.Within bound) ∧ items.length + size rest ≤ size text
  members : ∀ {text members rest}, size text < bound → readMembers fuel text = some (members, rest) →
    (∀ member ∈ members, member.2.Within bound) ∧ size rest ≤ size text

theorem readsWithin_zero (bound : Nat) : ReadsWithin bound 0 where
  value _ h := by cases h
  items _ h := by cases h
  members _ h := by cases h

namespace ReadsWithin

variable {bound fuel : Nat} (h : ReadsWithin bound fuel)
include h

theorem value_succ {value : Json} (hsize : size text < bound)
    (hread : readValue (fuel + 1) text = some (value, rest)) :
    value.Within bound ∧ size rest ≤ size text := by
  rw [readValue] at hread
  split at hread
  · next tail heq =>
    have htail := size_lt_of_skip heq
    obtain ⟨⟨s, rest⟩, hstring, hfound⟩ := Option.map_eq_some_iff.mp hread
    cases hfound
    have hbytes := length_bytes_of_readString hstring
    exact ⟨.string (by omega), by omega⟩
  · next tail heq =>
    have htail := size_lt_of_skip heq
    split at hread
    · next heq' =>
      cases hread
      have hrest := size_lt_of_skip heq'
      exact ⟨.array (by rw [List.length_nil]; omega) (by simp), by omega⟩
    · obtain ⟨⟨items, rest⟩, hitems, hfound⟩ := Option.map_eq_some_iff.mp hread
      cases hfound
      have hskip := size_skip_le tail
      obtain ⟨hwithin, hlength⟩ := h.items (by omega) hitems
      exact ⟨.array (by omega) hwithin, by omega⟩
  · next tail heq =>
    have htail := size_lt_of_skip heq
    split at hread
    · next heq' =>
      cases hread
      have hrest := size_lt_of_skip heq'
      exact ⟨.object (by simp), by omega⟩
    · obtain ⟨⟨members, rest⟩, hmembers, hfound⟩ := Option.map_eq_some_iff.mp hread
      cases hfound
      have hskip := size_skip_le tail
      obtain ⟨hwithin, hlength⟩ := h.members (by omega) hmembers
      exact ⟨.object hwithin, by omega⟩
  · next heq =>
    cases hread
    exact ⟨.null, size_le_of_skip ['n', 'u', 'l', 'l'] heq⟩
  · next heq =>
    cases hread
    exact ⟨.bool true, size_le_of_skip ['t', 'r', 'u', 'e'] heq⟩
  · next heq =>
    cases hread
    exact ⟨.bool false, size_le_of_skip ['f', 'a', 'l', 's', 'e'] heq⟩
  · obtain ⟨⟨written, rest⟩, hnumber, hfound⟩ := Option.map_eq_some_iff.mp hread
    cases hfound
    have hrest := size_le_of_suffix (suffix_of_readNumber hnumber)
    exact ⟨.number written, Nat.le_trans hrest (size_skip_le text)⟩

/-- Every item is followed by a comma or by the closing bracket, so there are no more items than
bytes. -/
theorem items_succ {items : List Json} (hsize : size text < bound)
    (hread : readItems (fuel + 1) text = some (items, rest)) :
    (∀ item ∈ items, item.Within bound) ∧ items.length + size rest ≤ size text := by
  rw [readItems] at hread
  split at hread
  · cases hread
  · next item tail hvalue =>
    obtain ⟨hitem, htail⟩ := h.value hsize hvalue
    split at hread
    · next heq =>
      cases hread
      have hclose := size_lt_of_skip heq
      exact ⟨by simpa using hitem, by simp only [List.length_singleton]; omega⟩
    · next heq =>
      obtain ⟨⟨items, rest⟩, hitems, hfound⟩ := Option.map_eq_some_iff.mp hread
      cases hfound
      have hcomma := size_lt_of_skip heq
      obtain ⟨hwithin, hlength⟩ := h.items (by omega) hitems
      exact ⟨List.forall_mem_cons.mpr ⟨hitem, hwithin⟩, by rw [List.length_cons]; omega⟩
    · cases hread

theorem members_succ {members : List (JsonString × Json)} (hsize : size text < bound)
    (hread : readMembers (fuel + 1) text = some (members, rest)) :
    (∀ member ∈ members, member.2.Within bound) ∧ size rest ≤ size text := by
  rw [readMembers] at hread
  split at hread
  · next tail heq =>
    have hquote := size_lt_of_skip heq
    split at hread
    · cases hread
    · next key tail hkey =>
      have hbytes := length_bytes_of_readString hkey
      split at hread
      · next heq' =>
        have hcolon := size_lt_of_skip heq'
        split at hread
        · cases hread
        · next value tail hvalue =>
          obtain ⟨hwithin, htail⟩ := h.value (by omega) hvalue
          split at hread
          · next heq'' =>
            cases hread
            have hclose := size_lt_of_skip heq''
            exact ⟨by simpa using hwithin, by omega⟩
          · next heq'' =>
            obtain ⟨⟨members, rest⟩, hmembers, hfound⟩ := Option.map_eq_some_iff.mp hread
            cases hfound
            have hcomma := size_lt_of_skip heq''
            obtain ⟨hrest, hlength⟩ := h.members (by omega) hmembers
            exact ⟨List.forall_mem_cons.mpr ⟨hwithin, hrest⟩, by omega⟩
          · cases hread
      · cases hread
  · cases hread

/-- The bounds hold with one more unit of fuel, as the three readers call each other with one less. -/
theorem succ : ReadsWithin bound (fuel + 1) where
  value := h.value_succ
  items := h.items_succ
  members := h.members_succ

end ReadsWithin

/-- With any fuel, what is read is within the size of its text. -/
theorem readsWithin (bound fuel : Nat) : ReadsWithin bound fuel := by
  induction fuel with
  | zero => exact readsWithin_zero bound
  | succ fuel ih => exact ih.succ

/-- What a text is read as stays within any bound on the number of its bytes. -/
theorem within_of_parse {bound : Nat} {value : Json} (h : parse text = some value)
    (hsize : size text < bound) : value.Within bound := by
  unfold parse at h
  split at h
  · cases h
  · next found rest hread =>
    split at h
    · cases h
      exact ((readsWithin bound _).value hsize hread).1
    · cases h

end Json

end StakeGuard
