import StakeGuard.Identifier
import StakeGuard.Proofs.HexText

/-!
# The texts of an identifier

What is read as an identifier is, after at most one `0x`, two hexadecimal digits of either case for each
of its bytes, and what is written is the same in lower case. Main statement: which texts are read, as what
they are read and why the others are not (`Identifier.text_grammar`).
-/

namespace StakeGuard.Identifier

open Text.Hex (IsDigit Malformed FirstFault)

variable {kind : IdentifierKind} {id : Identifier kind} {text : List Char}

/-! ## Digits -/

/-- What remains of a text without the `0x` that it begins with, where it does. Another one stays. -/
def remainder (text : List Char) : List Char :=
  if ['0', 'x'] <+: text then text.drop 2 else text

theorem digitsOf_eq_remainder (text : List Char) : digitsOf text = remainder text := by
  unfold digitsOf remainder
  split
  next rest => rw [if_pos ⟨rest, rfl⟩, List.drop_succ_cons, List.drop_succ_cons, List.drop_zero]
  next hne =>
    refine (if_neg ?_).symm
    rintro ⟨rest, rfl⟩
    exact hne rest rfl

theorem remainder_of_isDigit (h : ∀ c ∈ text, IsDigit c) : remainder text = text := by
  refine if_neg ?_
  rintro ⟨rest, rfl⟩
  -- a prefix would put an x among the digits
  have hx : IsDigit 'x' := h 'x' (by simp)
  exact absurd hx (by decide)

theorem toList_text (id : Identifier kind) : id.text.toList = Text.Hex.encode id.bytes :=
  String.toList_ofList

/-! ## Reading -/

theorem ofBytes_eq_ok_iff {bytes : Bytes} : ofBytes bytes = .ok id ↔ id.bytes = bytes := by
  unfold ofBytes
  split
  next hnone =>
    refine ⟨nofun, ?_⟩
    rintro rfl
    exact absurd id.raw.length_bytes (FixedBytes.ofBytes?_eq_none_iff.mp hnone)
  next raw hraw =>
    obtain rfl := FixedBytes.ofBytes?_eq_some_iff.mp hraw
    constructor
    · rintro ⟨⟩
      rfl
    · intro h
      exact congrArg Except.ok (congrArg Identifier.mk (FixedBytes.ext h.symm))

theorem ofBytes_eq_error_iff {bytes : Bytes} {e : IdentifierError} :
    (ofBytes bytes : Except _ (Identifier kind)) = .error e ↔
      bytes.length ≠ kind.width ∧ e = .length kind.width bytes.length := by
  unfold ofBytes
  split
  next hnone =>
    simp [FixedBytes.ofBytes?_eq_none_iff.mp hnone, eq_comm]
  next raw hraw =>
    obtain rfl := FixedBytes.ofBytes?_eq_some_iff.mp hraw
    simp [raw.length_bytes]

/-- A text is read as the identifier that is written as the remainder in lower case. -/
theorem parse_eq_ok_iff :
    parse text = .ok id ↔ (remainder text).map Char.toLower = id.text.toList := by
  rw [parse, digitsOf_eq_remainder, toList_text, ← Text.Hex.decode_utf8_eq_ok_iff]
  split
  next fault hfault => simp [hfault]
  next bytes hbytes => rw [ofBytes_eq_ok_iff, hbytes, Except.ok.injEq, eq_comm]

/-- The text of a fault in the digits is that of the fault which is met first. -/
theorem parse_eq_hex_iff {reason : String} :
    (parse text : Except _ (Identifier kind)) = .error (.hex reason) ↔
      ∃ fault, FirstFault (Text.utf8 (remainder text)) fault ∧ fault.message = reason := by
  rw [parse, digitsOf_eq_remainder]
  simp only [← Text.Hex.decode_eq_error_iff]
  split
  next fault hfault => simp [hfault]
  next bytes hbytes => simp [hbytes, ofBytes_eq_error_iff]

/-- Digits that can be read are refused where they are too many or too few, and are counted in bytes. -/
theorem parse_eq_length_iff {expected actual : Nat} :
    (parse text : Except _ (Identifier kind)) = .error (.length expected actual) ↔
      ¬Malformed (Text.utf8 (remainder text)) ∧
      expected = kind.width ∧ actual = (Text.utf8 (remainder text)).length / 2 ∧
      actual ≠ kind.width := by
  rw [parse, digitsOf_eq_remainder, ← Text.Hex.exists_firstFault_iff]
  simp only [← Text.Hex.decode_eq_error_iff]
  split
  next fault hfault => simp [hfault]
  next bytes hbytes =>
    have hlength : (Text.utf8 (remainder text)).length / 2 = bytes.length := by
      rw [Text.Hex.length_of_decode hbytes]
      omega
    rw [ofBytes_eq_error_iff, hlength, hbytes]
    simp only [IdentifierError.length.injEq, reduceCtorEq, exists_false, not_false_eq_true, true_and]
    constructor
    · rintro ⟨hne, rfl, rfl⟩
      exact ⟨rfl, rfl, hne⟩
    · rintro ⟨rfl, rfl, hne⟩
      exact ⟨hne, rfl, rfl⟩

/-- A text names something exactly if it has two digits for each byte and nothing else, apart from a
`0x` in front. -/
theorem exists_parse_eq_ok_iff :
    (∃ id : Identifier kind, parse text = .ok id) ↔
      (remainder text).length = 2 * kind.width ∧ ∀ c ∈ remainder text, IsDigit c := by
  simp only [parse_eq_ok_iff, toList_text]
  constructor
  · rintro ⟨id, hid⟩
    have hlength := congrArg List.length hid
    rw [List.length_map, Text.Hex.length_encode, bytes, id.raw.length_bytes] at hlength
    exact ⟨hlength, fun c => Text.Hex.isDigit_of_map_toLower_eq hid⟩
  · rintro ⟨hlength, hdigits⟩
    obtain ⟨bytes, hbytes, hlower⟩ := Text.Hex.exists_map_toLower_eq hlength hdigits
    exact ⟨⟨⟨bytes, hbytes⟩⟩, hlower⟩

/-! ## Writing -/

theorem isDigit_of_mem_text {c : Char} (h : c ∈ id.text.toList) : IsDigit c := by
  rw [toList_text] at h
  exact Text.Hex.isDigit_of_mem_encode h

/-- What is written is read back. -/
theorem parse_text (id : Identifier kind) : parse id.text.toList = .ok id := by
  rw [parse_eq_ok_iff, remainder_of_isDigit fun _ => isDigit_of_mem_text, toList_text,
    Text.Hex.map_toLower_encode]

theorem parse_zero_x_text (id : Identifier kind) : parse ('0' :: 'x' :: id.text.toList) = .ok id := by
  have hremainder : remainder ('0' :: 'x' :: id.text.toList) = id.text.toList :=
    if_pos ⟨id.text.toList, rfl⟩
  rw [parse_eq_ok_iff, hremainder, toList_text, Text.Hex.map_toLower_encode]

/-- Identifiers lie in the order of their texts. -/
theorem compare_text (a b : Identifier kind) :
    compare (Text.utf8 a.text.toList) (Text.utf8 b.text.toList) = compare a.bytes b.bytes := by
  rw [toList_text, toList_text, Text.Hex.compare_utf8_encode]

/-- **Every text is read by one grammar.** An identifier is read where what remains of the text is two
digits of either case for each of its bytes, and it is the one that is written as those digits in lower
case. Other texts are refused for their digits where these are odd in number or one is none, and for their
length where the digits can be read. So what an identifier is written as is read as it, with `0x` in
front and without, and identifiers lie in the order of what they are written as. -/
theorem text_grammar (kind : IdentifierKind) (text : List Char) :
    ((∃ id : Identifier kind, parse text = .ok id) ↔
      (remainder text).length = 2 * kind.width ∧ ∀ c ∈ remainder text, IsDigit c) ∧
    (∀ id : Identifier kind,
      parse text = .ok id ↔ (remainder text).map Char.toLower = id.text.toList) ∧
    ((∃ reason, (parse text : Except _ (Identifier kind)) = .error (.hex reason)) ↔
      Malformed (Text.utf8 (remainder text))) ∧
    (∀ expected actual,
      (parse text : Except _ (Identifier kind)) = .error (.length expected actual) ↔
        ¬Malformed (Text.utf8 (remainder text)) ∧
        expected = kind.width ∧ actual = (Text.utf8 (remainder text)).length / 2 ∧
        actual ≠ kind.width) ∧
    (∀ id : Identifier kind,
      parse id.text.toList = .ok id ∧ parse ('0' :: 'x' :: id.text.toList) = .ok id) ∧
    ∀ a b : Identifier kind, compare a b = compare a.bytes b.bytes ∧
      compare a.bytes b.bytes = compare (Text.utf8 a.text.toList) (Text.utf8 b.text.toList) := by
  refine ⟨exists_parse_eq_ok_iff, fun id => parse_eq_ok_iff, ?_, fun _ _ => parse_eq_length_iff,
    fun id => ⟨parse_text id, parse_zero_x_text id⟩, fun a b => ⟨rfl, (compare_text a b).symm⟩⟩
  rw [← Text.Hex.exists_firstFault_iff]
  constructor
  · rintro ⟨reason, hreason⟩
    obtain ⟨fault, hfault, -⟩ := parse_eq_hex_iff.mp hreason
    exact ⟨fault, hfault⟩
  · rintro ⟨fault, hfault⟩
    exact ⟨fault.message, parse_eq_hex_iff.mpr ⟨fault, hfault, rfl⟩⟩

/-- A prefix in upper case is not taken off, nor is a second one. -/
example :
    (parse "0XAB".toList : Except _ NodeId) =
        .error (.hex "Invalid character 'X' at position 1") ∧
      (parse "0x0xab".toList : Except _ NodeId) =
        .error (.hex "Invalid character 'x' at position 1") ∧
      (parse "0xAbcD".toList : Except _ NodeId) = .error (.length 20 2) :=
  ⟨rfl, rfl, rfl⟩

end StakeGuard.Identifier
