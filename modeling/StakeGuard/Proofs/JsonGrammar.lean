import StakeGuard.Format.Json.Parser

/-!
# The grammar of JSON

The texts that write a value (`Json.Written`): with blanks around every token, numbers with or without
fraction and exponent, strings with any of their characters escaped, and arrays and objects of whatever
depth. A value is written from its first to its last token (`Bare`), and blanks are around that. Main
statement: a text that writes a value is read as that value (`Json.parse_of_written`); and nothing in such a
value keeps it from being passed over (`Json.Written.isClean`).
-/

namespace StakeGuard.Json

/-! ## Grammar -/

/-- A text of blanks, which may be empty. -/
def Blank (text : List Char) : Prop := ∀ c ∈ text, isBlank c

/-- One or more decimal digits. -/
def Digits (text : List Char) : Prop := text ≠ [] ∧ ∀ c ∈ text, isDigit c

/-- The part of a numeral after the point, which may be missing. -/
inductive Fraction : List Char → Prop where
  | none : Fraction []
  | some {digits : List Char} (h : Digits digits) : Fraction ('.' :: digits)

/-- The exponent of a numeral, which may be missing. -/
inductive Exponent : List Char → Prop where
  | none : Exponent []
  | some {e : Char} {sign digits : List Char} (he : e = 'e' ∨ e = 'E')
      (hsign : sign = [] ∨ sign = ['+'] ∨ sign = ['-']) (h : Digits digits) :
      Exponent (e :: (sign ++ digits))

/-- A number, whose integer has no superfluous zero in front. -/
inductive Numeral : List Char → Prop where
  | intro {sign integer fraction exponent : List Char} (hsign : sign = [] ∨ sign = ['-'])
      (hinteger : Digits integer) (hzero : integer.head? = some '0' → integer = ['0'])
      (hfraction : Fraction fraction) (hexponent : Exponent exponent) :
      Numeral (sign ++ (integer ++ (fraction ++ exponent)))

/-- The characters that stand for a unit after a backslash. -/
def escapes : List (Char × Nat) := [
  ('"', 0x22), ('\\', 0x5c), ('/', 0x2f), ('b', 0x08), ('f', 0x0c), ('n', 0x0a), ('r', 0x0d),
  ('t', 0x09)]

/-- The hexadecimal digit of a value, in either case. -/
def IsHex (c : Char) (n : Nat) : Prop :=
  "0123456789abcdef".toList[n]? = some c ∨ "0123456789ABCDEF".toList[n]? = some c

/-- The units that the text between two quotes writes. -/
inductive Units : List Nat → List Char → Prop where
  | nil : Units [] []
  | plain {c : Char} {us : List Nat} {text : List Char} (hquote : c ≠ '"') (hescape : c ≠ '\\')
      (hcontrol : 0x20 ≤ c.toNat) (h : Units us text) : Units (c.toNat :: us) (c :: text)
  | escape {e : Char} {unit : Nat} {us : List Nat} {text : List Char} (he : (e, unit) ∈ escapes)
      (h : Units us text) : Units (unit :: us) ('\\' :: e :: text)
  | hex {a b c d : Char} {i j k l : Nat} {us : List Nat} {text : List Char} (ha : IsHex a i)
      (hb : IsHex b j) (hc : IsHex c k) (hd : IsHex d l) (h : Units us text) :
      Units ((4096 * i + 256 * j + 16 * k + l) :: us) ('\\' :: 'u' :: a :: b :: c :: d :: text)

/-- A string in its quotes. -/
inductive Quoted : JsonString → List Char → Prop where
  | intro {us : List Nat} {text : List Char} (h : Units us text) :
      Quoted ⟨joinPairs us, false⟩ ('"' :: (text ++ ['"']))

mutual

/-- The value that a text writes, from its first to its last token. -/
inductive Bare : Json → List Char → Prop where
  | null : Bare null ['n', 'u', 'l', 'l']
  | isTrue : Bare (bool true) ['t', 'r', 'u', 'e']
  | isFalse : Bare (bool false) ['f', 'a', 'l', 's', 'e']
  | number {text : List Char} (h : Numeral text) : Bare (number text) text
  | string {s : JsonString} {text : List Char} (h : Quoted s text) : Bare (string s) text
  | emptyArray {blank : List Char} (h : Blank blank) : Bare (array []) ('[' :: (blank ++ [']']))
  | array {items : List Json} {text : List Char} (h : WrittenItems items text) :
      Bare (array items) ('[' :: (text ++ [']']))
  | emptyObject {blank : List Char} (h : Blank blank) :
      Bare (object []) ('\x7b' :: (blank ++ ['\x7d']))
  | object {members : List (JsonString × Json)} {text : List Char} (h : WrittenMembers members text) :
      Bare (object members) ('\x7b' :: (text ++ ['\x7d']))

/-- The value that a text writes, with blanks around it. -/
inductive Written : Json → List Char → Prop where
  | intro {value : Json} {before text after : List Char} (hbefore : Blank before)
      (h : Bare value text) (hafter : Blank after) : Written value (before ++ (text ++ after))

/-- The texts that write the items of an array, with commas between them. -/
inductive WrittenItems : List Json → List Char → Prop where
  | last {item : Json} {text : List Char} (h : Written item text) : WrittenItems [item] text
  | next {item : Json} {items : List Json} {text rest : List Char} (h : Written item text)
      (hrest : WrittenItems items rest) : WrittenItems (item :: items) (text ++ ',' :: rest)

/-- The texts that write a member of an object. -/
inductive WrittenMember : JsonString × Json → List Char → Prop where
  | intro {key : JsonString} {value : Json} {before name after text : List Char}
      (hbefore : Blank before) (hkey : Quoted key name) (hafter : Blank after) (h : Written value text) :
      WrittenMember (key, value) (before ++ (name ++ (after ++ ':' :: text)))

/-- The texts that write the members of an object, with commas between them. -/
inductive WrittenMembers : List (JsonString × Json) → List Char → Prop where
  | last {member : JsonString × Json} {text : List Char} (h : WrittenMember member text) :
      WrittenMembers [member] text
  | next {member : JsonString × Json} {members : List (JsonString × Json)} {text rest : List Char}
      (h : WrittenMember member text) (hrest : WrittenMembers members rest) :
      WrittenMembers (member :: members) (text ++ ',' :: rest)

end

theorem blank_nil : Blank [] := nofun

theorem Bare.written {value : Json} {text : List Char} (h : Bare value text) : Written value text := by
  have hwritten := Written.intro blank_nil h blank_nil
  rwa [List.nil_append, List.append_nil] at hwritten

/-! ## What may be passed over -/

theorem isClean_of_mem {members : List (JsonString × Json)} (h : (object members).isClean) :
    ∀ member ∈ members, member.2.isClean := by
  rw [isClean] at h
  induction members with
  | nil => exact nofun
  | cons member rest ih =>
    simp only [allMembersClean, Bool.and_eq_true] at h
    exact List.forall_mem_cons.mpr ⟨h.1.2, ih h.2⟩

theorem Quoted.hasControl {s : JsonString} {text : List Char} (h : Quoted s text) :
    s.hasControl = false := by
  cases h
  rfl

mutual

theorem Bare.isClean {value : Json} {text : List Char} : Bare value text → value.isClean
  | .null | .isTrue | .isFalse | .number _ | .emptyArray _ | .emptyObject _ => rfl
  | .string h => by rw [Json.isClean, h.hasControl]; rfl
  | .array h => h.allClean
  | .object h => h.allMembersClean

/-- A value that is written by the grammar holds no control character that stands unescaped. -/
theorem Written.isClean {value : Json} {text : List Char} : Written value text → value.isClean
  | .intro _ h _ => h.isClean

theorem WrittenItems.allClean {items : List Json} {text : List Char} :
    WrittenItems items text → Json.allClean items
  | .last h => by rw [Json.allClean, h.isClean]; rfl
  | .next h hrest => by rw [Json.allClean, h.isClean]; exact hrest.allClean

theorem WrittenMember.isClean {member : JsonString × Json} {text : List Char} :
    WrittenMember member text → member.1.hasControl = false ∧ member.2.isClean
  | .intro _ hkey _ h => ⟨hkey.hasControl, h.isClean⟩

theorem WrittenMembers.allMembersClean {members : List (JsonString × Json)} {text : List Char} :
    WrittenMembers members text → Json.allMembersClean members
  | .last h => by rw [Json.allMembersClean, h.isClean.1, h.isClean.2]; rfl
  | .next h hrest => by
    rw [Json.allMembersClean, h.isClean.1, h.isClean.2]
    exact hrest.allMembersClean

end

/-! ## Numbers -/

variable {rest : List Char}

theorem isDigit_iff (c : Char) : isDigit c = true ↔ 48 ≤ c.toNat ∧ c.toNat ≤ 57 := by
  rw [isDigit, Bool.and_eq_true, decide_eq_true_eq, decide_eq_true_eq]
  exact Iff.rfl

/-- A text that does not go on with a number. -/
def Ends (text : List Char) : Prop :=
  ∀ c ∈ text.head?, isDigit c = false ∧ c ≠ '.' ∧ c ≠ 'e' ∧ c ≠ 'E'

theorem ends_nil : Ends [] := nofun

theorem ends_cons {c : Char} (h : isDigit c = false ∧ c ≠ '.' ∧ c ≠ 'e' ∧ c ≠ 'E') :
    Ends (c :: rest) := by
  rintro d hd
  cases hd
  exact h

theorem readDigits_append {digits : List Char} (h : Digits digits)
    (hrest : ∀ c ∈ rest.head?, isDigit c = false) :
    readDigits (digits ++ rest) = some (digits, rest) := by
  have hstop : rest.takeWhile isDigit = [] ∧ rest.dropWhile isDigit = rest := by
    cases rest with
    | nil => exact ⟨rfl, rfl⟩
    | cons c rest => simp [hrest c rfl]
  rw [readDigits, List.takeWhile_append_of_pos h.2, List.dropWhile_append_of_pos h.2, hstop.1, hstop.2,
    List.append_nil]
  simp [h.1]

theorem readInteger_append {digits : List Char} (h : Digits digits)
    (hzero : digits.head? = some '0' → digits = ['0'])
    (hrest : ∀ c ∈ rest.head?, isDigit c = false) :
    readInteger (digits ++ rest) = some (digits, rest) := by
  rw [readInteger, readDigits_append h hrest]
  split
  · next heq =>
    rw [Option.some.injEq, Prod.mk.injEq] at heq
    rw [heq.1] at hzero
    cases hzero rfl
  · rfl

theorem Fraction.head {fraction : List Char} (h : Fraction fraction)
    (hrest : ∀ c ∈ rest.head?, isDigit c = false) :
    ∀ c ∈ (fraction ++ rest).head?, isDigit c = false := by
  cases h with
  | none => exact hrest
  | some =>
    rintro c ⟨⟩
    decide

theorem readFraction_append {fraction : List Char} (h : Fraction fraction)
    (hrest : ∀ c ∈ rest.head?, isDigit c = false ∧ c ≠ '.') :
    readFraction (fraction ++ rest) = some (fraction, rest) := by
  cases h with
  | none =>
    rw [List.nil_append]
    unfold readFraction
    split
    · exact absurd rfl (hrest '.' rfl).2
    · rfl
  | some h =>
    rw [List.cons_append, readFraction, readDigits_append h fun c hc => (hrest c hc).1]
    rfl

theorem Exponent.head {exponent : List Char} (h : Exponent exponent) (hends : Ends rest) :
    ∀ c ∈ (exponent ++ rest).head?, isDigit c = false ∧ c ≠ '.' := by
  cases h with
  | none => exact fun c hc => ⟨(hends c hc).1, (hends c hc).2.1⟩
  | some he =>
    rintro c ⟨⟩
    obtain rfl | rfl := he <;> decide

theorem readSign_append {sign digits : List Char} (hsign : sign = [] ∨ sign = ['+'] ∨ sign = ['-'])
    (h : Digits digits) : readSign (sign ++ (digits ++ rest)) = (sign, digits ++ rest) := by
  obtain rfl | rfl | rfl := hsign
  · cases digits with
    | nil => exact absurd rfl h.1
    | cons d digits =>
      have hd := h.2 d List.mem_cons_self
      rw [List.nil_append, List.cons_append]
      unfold readSign
      split
      · next heq => cases heq; cases hd
      · next heq => cases heq; cases hd
      · rfl
  · rfl
  · rfl

theorem readExponent_append {exponent : List Char} (h : Exponent exponent) (hends : Ends rest) :
    readExponent (exponent ++ rest) = some (exponent, rest) := by
  cases h with
  | none =>
    rw [List.nil_append]
    unfold readExponent
    split
    · next c rest =>
      have hc := (hends c rfl).2.2
      rw [if_neg (not_or.mpr hc)]
    · rfl
  | some he hsign h =>
    rw [List.cons_append, List.append_assoc, readExponent, if_pos he, readSign_append hsign h]
    simp only [readDigits_append h fun c hc => (hends c hc).1, Option.map_some]

theorem Numeral.exists_head {text : List Char} (h : Numeral text) :
    ∃ c tail, text = c :: tail ∧ (isDigit c ∨ c = '-') := by
  obtain ⟨rfl | rfl, ⟨hsome, hdigits⟩, -, -, -⟩ := h
  · rename_i integer fraction exponent
    cases integer with
    | nil => exact absurd rfl hsome
    | cons d digits => exact ⟨d, _, rfl, .inl (hdigits d List.mem_cons_self)⟩
  · exact ⟨'-', _, rfl, .inr rfl⟩

/-- A numeral is read to its end if what follows cannot continue it. -/
theorem readNumber_append {text : List Char} (h : Numeral text) (hends : Ends rest) :
    readNumber (text ++ rest) = some (text, rest) := by
  obtain ⟨hsign, hinteger, hzero, hfraction, hexponent⟩ := h
  rename_i sign integer fraction exponent
  have hafter := hexponent.head hends
  have hread := readInteger_append hinteger hzero
    (hfraction.head fun c hc => (hafter c hc).1)
  obtain rfl | rfl := hsign
  · -- an integer is not taken for a sign
    have hminus : ∀ tail, integer ++ (fraction ++ (exponent ++ rest)) ≠ '-' :: tail := by
      intro tail heq
      cases integer with
      | nil => exact absurd rfl hinteger.1
      | cons d digits =>
        cases heq
        cases hinteger.2 '-' List.mem_cons_self
    simp [readNumber, hread, readFraction_append hfraction hafter, readExponent_append hexponent hends]
  · simp [readNumber, hread, readFraction_append hfraction hafter, readExponent_append hexponent hends]

/-! ## Strings -/

theorem hexDigit?_eq_some {c : Char} {n : Nat} (h : IsHex c n) : hexDigit? c = some n := by
  have hlower : ∀ i < 16, ("0123456789abcdef".toList[i]?).bind hexDigit? = some i := by decide
  have hupper : ∀ i < 16, ("0123456789ABCDEF".toList[i]?).bind hexDigit? = some i := by decide
  obtain h | h := h
  · have hn := hlower n (List.getElem?_eq_some_iff.mp h).1
    rwa [h] at hn
  · have hn := hupper n (List.getElem?_eq_some_iff.mp h).1
    rwa [h] at hn

theorem escaped?_eq_some {e : Char} {unit : Nat} (h : (e, unit) ∈ escapes) :
    escaped? e = some unit := by
  have hall : ∀ p ∈ escapes, escaped? p.1 = some p.2 := by decide
  exact hall _ h

theorem units_plain {c : Char} (hquote : c ≠ '"') (hescape : c ≠ '\\') (text : List Char) :
    units (c :: text) = withUnit c.toNat (c.toNat < 32) (units text) := by
  rw [units.eq_def]
  split <;> simp_all

theorem units_escape {e : Char} {unit : Nat} (h : (e, unit) ∈ escapes) (text : List Char) :
    units ('\\' :: e :: text) = withUnit unit false (units text) := by
  have hread := escaped?_eq_some h
  rw [units.eq_def]
  split
  · next heq => cases heq
  · next heq => cases heq
  · next heq => cases heq; cases hread
  · next heq => cases heq; simp only [hread]
  · next hescape heq => cases heq; exact absurd rfl (hescape e text rfl)

/-- The units of a string are read up to its closing quote. -/
theorem Units.units_append {us : List Nat} {text : List Char} (h : Units us text) (rest : List Char) :
    units (text ++ '"' :: rest) = some (⟨us, false⟩, rest) := by
  induction h with
  | nil => rfl
  | plain hquote hescape hcontrol h ih =>
    rw [List.cons_append, units_plain hquote hescape, ih, decide_eq_false (Nat.not_lt.mpr hcontrol)]
    rfl
  | escape he h ih =>
    rw [List.cons_append, List.cons_append, units_escape he, ih]
    rfl
  | hex ha hb hc hd h ih =>
    simp [units, hexUnit?, hexDigit?_eq_some ha, hexDigit?_eq_some hb, hexDigit?_eq_some hc,
      hexDigit?_eq_some hd, ih, withUnit]

/-- A string in its quotes is read off the front of a text. -/
theorem Quoted.readString_append {s : JsonString} {text : List Char} (h : Quoted s text)
    (rest : List Char) : ∃ tail, text ++ rest = '"' :: tail ∧ readString tail = some (s, rest) := by
  obtain ⟨h⟩ := h
  rename_i us text
  refine ⟨text ++ '"' :: rest, by simp, ?_⟩
  rw [readString, h.units_append rest]

/-! ## Blanks -/

theorem skip_cons {c : Char} (h : isBlank c = false) (text : List Char) :
    skip (c :: text) = c :: text := by
  simp [skip, h]

theorem Blank.skip_append {before : List Char} (h : Blank before) (text : List Char) :
    skip (before ++ text) = skip text :=
  List.dropWhile_append_of_pos h

/-- A value is read after blanks as it is without them. -/
theorem readValue_congr {text text' : List Char} (h : skip text = skip text') (fuel : Nat) :
    readValue fuel text = readValue fuel text' := by
  cases fuel with
  | zero => rfl
  | succ fuel => rw [readValue, readValue, h]

/-- Blanks in front of the items make no difference, as the first value skips them. -/
theorem readItems_congr {text text' : List Char} (h : skip text = skip text') (fuel : Nat) :
    readItems fuel text = readItems fuel text' := by
  cases fuel with
  | zero => rfl
  | succ fuel => rw [readItems, readItems, readValue_congr h]

theorem readMembers_congr {text text' : List Char} (h : skip text = skip text') (fuel : Nat) :
    readMembers fuel text = readMembers fuel text' := by
  cases fuel with
  | zero => rfl
  | succ fuel => rw [readMembers, readMembers, h]

theorem Blank.ends_append {blank : List Char} (h : Blank blank) (hends : Ends rest) :
    Ends (blank ++ rest) := by
  cases blank with
  | nil => exact hends
  | cons c blank =>
    have hc := h c List.mem_cons_self
    simp only [isBlank, Bool.or_eq_true, decide_eq_true_eq] at hc
    obtain ((rfl | rfl) | rfl) | rfl := hc <;> exact ends_cons (by decide)

/-! ## Values -/

/-- A value is read off the front of all texts that begin with a text, given fuel for its length, and
what is left goes on as they do. -/
def ReadsOff (value : Json) (text : List Char) : Prop :=
  ∀ fuel rest, 2 * text.length ≤ fuel → Ends rest →
    ∃ left, readValue fuel (text ++ rest) = some (value, left) ∧ skip left = skip rest

/-- The items of an array are read off a text up to the bracket that closes it. -/
def ReadsItems (items : List Json) (text : List Char) : Prop :=
  ∀ fuel rest, 2 * text.length + 1 ≤ fuel →
    readItems fuel (text ++ ']' :: rest) = some (items, rest)

/-- How members are read on when one of them has been read. -/
def readOn (fuel : Nat) (member : JsonString × Json) :
    List Char → Option (List (JsonString × Json) × List Char)
  | '\x7d' :: rest => some ([member], rest)
  | ',' :: rest => (readMembers fuel rest).map fun (members, rest) => (member :: members, rest)
  | _ => none

/-- A member is read off the front of all texts that begin with a text. -/
def ReadsMember (member : JsonString × Json) (text : List Char) : Prop :=
  ∀ fuel rest, 2 * text.length ≤ fuel → Ends rest →
    readMembers (fuel + 1) (text ++ rest) = readOn fuel member (skip rest)

/-- The members of an object are read off a text up to the brace that closes it. -/
def ReadsMembers (members : List (JsonString × Json)) (text : List Char) : Prop :=
  ∀ fuel rest, 2 * text.length + 1 ≤ fuel →
    readMembers fuel (text ++ '\x7d' :: rest) = some (members, rest)

theorem isBlank_eq_false {c : Char} (hc : isDigit c ∨ c = '-') : isBlank c = false := by
  rw [Bool.eq_false_iff]
  intro hblank
  simp only [isBlank, Bool.or_eq_true, decide_eq_true_eq] at hblank
  obtain ((rfl | rfl) | rfl) | rfl := hblank <;> exact absurd hc (by decide)

/-- Nothing but a number begins with a digit or a minus sign. -/
theorem readValue_numeral {c : Char} (hc : isDigit c ∨ c = '-') (fuel : Nat) (text : List Char) :
    readValue (fuel + 1) (c :: text) =
      (readNumber (c :: text)).map fun (written, rest) => (number written, rest) := by
  rw [readValue, skip_cons (isBlank_eq_false hc)]
  split
  case h_7 => rfl
  all_goals next heq => cases heq; exact absurd hc (by decide)

/-- What begins with a token takes one step of fuel at least. -/
theorem readsOff_of_succ {value : Json} {text : List Char} (hsome : text ≠ [])
    (h : ∀ fuel rest, 2 * text.length ≤ fuel + 1 → Ends rest →
      readValue (fuel + 1) (text ++ rest) = some (value, rest)) : ReadsOff value text := by
  intro fuel rest hfuel hends
  have hlength := List.length_pos_iff.mpr hsome
  obtain ⟨fuel, rfl⟩ : ∃ k, fuel = k + 1 := ⟨fuel - 1, by omega⟩
  exact ⟨rest, h fuel rest hfuel hends, rfl⟩

theorem readsOff_number {text : List Char} (h : Numeral text) : ReadsOff (number text) text := by
  obtain ⟨c, tail, rfl, hc⟩ := h.exists_head
  refine readsOff_of_succ (List.cons_ne_nil c tail) fun fuel rest _ hends => ?_
  rw [List.cons_append, readValue_numeral hc, ← List.cons_append, readNumber_append h hends]
  rfl

theorem readsOff_string {s : JsonString} {text : List Char} (h : Quoted s text) :
    ReadsOff (string s) text := by
  have hsome : text ≠ [] := by
    cases h
    exact List.cons_ne_nil _ _
  refine readsOff_of_succ hsome fun fuel rest _ _ => ?_
  obtain ⟨tail, htail, hread⟩ := h.readString_append rest
  rw [htail, readValue, skip_cons (by decide)]
  simp only [hread, Option.map_some]

theorem readsOff_emptyArray {blank : List Char} (h : Blank blank) :
    ReadsOff (array []) ('[' :: (blank ++ [']'])) := by
  refine readsOff_of_succ (List.cons_ne_nil _ _) fun fuel rest _ _ => ?_
  rw [List.cons_append, List.append_assoc, readValue, skip_cons (by decide)]
  simp only [h.skip_append, List.singleton_append, skip_cons (show isBlank ']' = false by decide)]

theorem readsOff_emptyObject {blank : List Char} (h : Blank blank) :
    ReadsOff (object []) ('\x7b' :: (blank ++ ['\x7d'])) := by
  refine readsOff_of_succ (List.cons_ne_nil _ _) fun fuel rest _ _ => ?_
  rw [List.cons_append, List.append_assoc, readValue, skip_cons (by decide)]
  simp only [h.skip_append, List.singleton_append,
    skip_cons (show isBlank '\x7d' = false by decide)]

/-- An array is read off if its items are and what follows its bracket does not look like the end. -/
theorem readsOff_array {items : List Json} {text : List Char} (h : ReadsItems items text)
    (hhead : ∀ rest, ∃ c tail, skip (text ++ rest) = c :: tail ∧ isBlank c = false ∧ c ≠ ']') :
    ReadsOff (array items) ('[' :: (text ++ [']'])) := by
  refine readsOff_of_succ (List.cons_ne_nil _ _) fun fuel rest hfuel _ => ?_
  have hread := h fuel rest (by grind)
  obtain ⟨c, tail, htail, hblank, hclose⟩ := hhead (']' :: rest)
  rw [readItems_congr (htail.trans (skip_cons hblank tail).symm)] at hread
  rw [List.cons_append, List.append_assoc, List.singleton_append, readValue, skip_cons (by decide)]
  simp only [htail]
  -- the first item does not begin with the bracket that would close an empty array
  split
  · next heq => exact absurd (List.cons.inj heq).1 hclose
  · rw [hread]; rfl

/-- An object is read off if its members are. -/
theorem readsOff_object {members : List (JsonString × Json)} {text : List Char}
    (h : ReadsMembers members text) (hhead : ∀ rest, ∃ tail, skip (text ++ rest) = '"' :: tail) :
    ReadsOff (object members) ('\x7b' :: (text ++ ['\x7d'])) := by
  refine readsOff_of_succ (List.cons_ne_nil _ _) fun fuel rest hfuel _ => ?_
  have hread := h fuel rest (by grind)
  obtain ⟨tail, htail⟩ := hhead ('\x7d' :: rest)
  rw [readMembers_congr (htail.trans (skip_cons (by decide) tail).symm)] at hread
  rw [List.cons_append, List.append_assoc, List.singleton_append, readValue, skip_cons (by decide)]
  simp only [htail]
  split
  · next heq => cases heq
  · rw [hread]; rfl

/-- Blanks before a value are skipped by its reader, and blanks after it by whoever reads on. -/
theorem ReadsOff.pad {value : Json} {before text after : List Char} (hbefore : Blank before)
    (h : ReadsOff value text) (hafter : Blank after) :
    ReadsOff value (before ++ (text ++ after)) := by
  intro fuel rest hfuel hends
  obtain ⟨left, hread, hleft⟩ := h fuel (after ++ rest) (by grind) (hafter.ends_append hends)
  refine ⟨left, ?_, hleft.trans (hafter.skip_append rest)⟩
  rw [List.append_assoc, readValue_congr (hbefore.skip_append _), List.append_assoc, hread]

theorem readsItems_last {item : Json} {text : List Char} (h : ReadsOff item text) :
    ReadsItems [item] text := by
  intro fuel rest hfuel
  obtain ⟨fuel, rfl⟩ : ∃ k, fuel = k + 1 := ⟨fuel - 1, by omega⟩
  obtain ⟨left, hread, hleft⟩ := h fuel (']' :: rest) (by omega) (ends_cons (by decide))
  simp only [readItems, hread, hleft, skip_cons (show isBlank ']' = false by decide)]

/-- One more item is read off in front of others. -/
theorem readsItems_next {item : Json} {items : List Json} {text more : List Char}
    (h : ReadsOff item text) (hmore : ReadsItems items more) :
    ReadsItems (item :: items) (text ++ ',' :: more) := by
  intro fuel rest hfuel
  rw [List.length_append, List.length_cons] at hfuel
  obtain ⟨fuel, rfl⟩ : ∃ k, fuel = k + 1 := ⟨fuel - 1, by omega⟩
  obtain ⟨left, hread, hleft⟩ := h fuel (',' :: (more ++ ']' :: rest)) (by omega)
    (ends_cons (by decide))
  simp only [List.append_assoc, List.cons_append, readItems, hread, hleft,
    skip_cons (show isBlank ',' = false by decide), hmore fuel rest (by omega), Option.map_some]

theorem readsMember {key : JsonString} {value : Json} {before name after text : List Char}
    (hbefore : Blank before) (hkey : Quoted key name) (hafter : Blank after)
    (h : ReadsOff value text) :
    ReadsMember (key, value) (before ++ (name ++ (after ++ ':' :: text))) := by
  intro fuel rest hfuel hends
  obtain ⟨left, hread, hleft⟩ := h fuel rest (by grind) hends
  obtain ⟨tail, htail, hname⟩ := hkey.readString_append (after ++ ':' :: (text ++ rest))
  have htext : before ++ (name ++ (after ++ ':' :: text)) ++ rest = before ++ '"' :: tail := by
    rw [← htail]
    simp
  rw [htext, readMembers, hbefore.skip_append, skip_cons (by decide)]
  simp only [hname, hafter.skip_append, skip_cons (show isBlank ':' = false by decide), hread, hleft]
  rfl

theorem readsMembers_last {member : JsonString × Json} {text : List Char}
    (h : ReadsMember member text) : ReadsMembers [member] text := by
  intro fuel rest hfuel
  obtain ⟨fuel, rfl⟩ : ∃ k, fuel = k + 1 := ⟨fuel - 1, by omega⟩
  rw [h fuel _ (by omega) (ends_cons (by decide)), skip_cons (by decide)]
  rfl

theorem readsMembers_next {member : JsonString × Json} {members : List (JsonString × Json)}
    {text more : List Char} (h : ReadsMember member text) (hmore : ReadsMembers members more) :
    ReadsMembers (member :: members) (text ++ ',' :: more) := by
  intro fuel rest hfuel
  rw [List.length_append, List.length_cons] at hfuel
  obtain ⟨fuel, rfl⟩ : ∃ k, fuel = k + 1 := ⟨fuel - 1, by omega⟩
  rw [List.append_assoc, List.cons_append, h fuel _ (by omega) (ends_cons (by decide)),
    skip_cons (by decide), readOn, hmore fuel rest (by omega)]
  rfl

/-! ## What is written is read -/

/-- A value begins with a character that is no blank and closes no array. -/
theorem Bare.exists_head {value : Json} {text : List Char} (h : Bare value text) :
    ∃ c tail, text = c :: tail ∧ isBlank c = false ∧ c ≠ ']' := by
  cases h with
  | null | isTrue | isFalse | emptyArray | array | emptyObject | object =>
    exact ⟨_, _, rfl, by decide, by decide⟩
  | string h =>
    cases h
    exact ⟨_, _, rfl, by decide, by decide⟩
  | number h =>
    obtain ⟨c, tail, rfl, hc⟩ := h.exists_head
    refine ⟨c, tail, rfl, isBlank_eq_false hc, ?_⟩
    rintro rfl
    exact absurd hc (by decide)

theorem Written.exists_head {value : Json} {text : List Char} (h : Written value text)
    (rest : List Char) : ∃ c tail, skip (text ++ rest) = c :: tail ∧ isBlank c = false ∧ c ≠ ']' := by
  obtain ⟨hbefore, h, -⟩ := h
  obtain ⟨c, tail, rfl, hblank, hclose⟩ := h.exists_head
  rw [List.append_assoc, hbefore.skip_append, List.cons_append, List.cons_append, skip_cons hblank]
  exact ⟨c, _, rfl, hblank, hclose⟩

theorem WrittenItems.exists_head {items : List Json} {text : List Char} (h : WrittenItems items text)
    (rest : List Char) : ∃ c tail, skip (text ++ rest) = c :: tail ∧ isBlank c = false ∧ c ≠ ']' := by
  cases h with
  | last h => exact h.exists_head rest
  | next h hrest =>
    rw [List.append_assoc]
    exact h.exists_head _

theorem WrittenMember.exists_head {member : JsonString × Json} {text : List Char}
    (h : WrittenMember member text) (rest : List Char) : ∃ tail, skip (text ++ rest) = '"' :: tail := by
  obtain ⟨hbefore, hkey, -, -⟩ := h
  rw [List.append_assoc, hbefore.skip_append]
  cases hkey
  exact ⟨_, skip_cons (by decide) _⟩

theorem WrittenMembers.exists_head {members : List (JsonString × Json)} {text : List Char}
    (h : WrittenMembers members text) (rest : List Char) :
    ∃ tail, skip (text ++ rest) = '"' :: tail := by
  cases h with
  | last h => exact h.exists_head rest
  | next h hrest =>
    rw [List.append_assoc]
    exact h.exists_head _

mutual

/-- What writes a value without blanks around it is read off as the value, by induction on how it is
written. -/
theorem Bare.readsOff {value : Json} {text : List Char} : Bare value text → ReadsOff value text
  | .null | .isTrue | .isFalse => readsOff_of_succ (List.cons_ne_nil _ _) fun _ _ _ _ => rfl
  | .number h => readsOff_number h
  | .string h => readsOff_string h
  | .emptyArray h => readsOff_emptyArray h
  | .array h => readsOff_array h.reads h.exists_head
  | .emptyObject h => readsOff_emptyObject h
  | .object h => readsOff_object h.reads h.exists_head

theorem Written.readsOff {value : Json} {text : List Char} : Written value text → ReadsOff value text
  | .intro hbefore h hafter => h.readsOff.pad hbefore hafter

theorem WrittenItems.reads {items : List Json} {text : List Char} :
    WrittenItems items text → ReadsItems items text
  | .last h => readsItems_last h.readsOff
  | .next h hrest => readsItems_next h.readsOff hrest.reads

theorem WrittenMember.reads {member : JsonString × Json} {text : List Char} :
    WrittenMember member text → ReadsMember member text
  | .intro hbefore hkey hafter h => readsMember hbefore hkey hafter h.readsOff

theorem WrittenMembers.reads {members : List (JsonString × Json)} {text : List Char} :
    WrittenMembers members text → ReadsMembers members text
  | .last h => readsMembers_last h.reads
  | .next h hrest => readsMembers_next h.reads hrest.reads

end

/-- A text that writes a value is read as that value. -/
theorem parse_of_written {value : Json} {text : List Char} (h : Written value text) :
    parse text = some value := by
  obtain ⟨left, hread, hleft⟩ := h.readsOff (2 * text.length + 2) [] (by omega) ends_nil
  rw [List.append_nil] at hread
  rw [parse, hread]
  simp only [hleft]
  rfl

end StakeGuard.Json
