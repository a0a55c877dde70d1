import StakeGuard.Proofs.JsonSize
import StakeGuard.Proofs.ReadBack

/-!
# What has been read is read back

Not every value of a type is read back as it is written: a key may fail its check, and a list may be
too long for its length to be written. A form is faithful if it reads back whatever it has read itself,
from JSON whose lengths fit into a word or from any bytes (`Form.Faithful`). Numbers and byte strings
are faithful because all of them are read back; the other forms are put together from faithful ones.
-/

namespace StakeGuard

/-! ## Texts -/

namespace JsonString

theorem text?_ofString (s : String) : (ofString s).text? = some s := by
  have hpoints : (s.toList.map Char.toNat).any isSurrogate = false := by
    simp [Json.not_isSurrogate]
  have hchars : (s.toList.map Char.toNat).map Char.ofNat = s.toList := by
    rw [List.map_map]
    exact List.map_id'' Char.ofNat_toNat s.toList
  simp [text?, ofString, hpoints, hchars]

/-- A string that denotes a text stands for the text's bytes. -/
theorem bytes_of_text? {s : JsonString} {text : String} (h : s.text? = some text) :
    s.bytes = Text.utf8 text.toList := by
  unfold text? at h
  split at h
  · cases h
  · next hclean =>
    cases h
    simp only [Bool.or_eq_true, not_or, List.any_eq_true, not_exists, not_and] at hclean
    rw [String.toList_ofList, bytes, Text.utf8, List.flatMap_map, List.flatMap_def, List.flatMap_def]
    exact congrArg List.flatten (List.map_congr_left fun n hn => if_neg (hclean.2 n hn))

end JsonString

namespace Text

theorem toByteArray_eq (s : String) : s.toByteArray = ⟨(utf8 s.toList).toArray⟩ := by
  rw [← String.ofList_toList (s := s), String.toByteArray_ofList, List.utf8Encode,
    String.toList_ofList]
  exact congrArg ByteArray.mk List.data_toByteArray

theorem fromUTF8?_eq_some_iff {bytes : Bytes} {s : String} :
    String.fromUTF8? ⟨bytes.toArray⟩ = some s ↔ utf8 s.toList = bytes := by
  have hbytes : s.toByteArray = ⟨bytes.toArray⟩ ↔ utf8 s.toList = bytes := by
    rw [toByteArray_eq, ByteArray.mk.injEq]
    exact ⟨List.toArray_inj, congrArg List.toArray⟩
  rw [← hbytes]
  unfold String.fromUTF8?
  split
  · rw [Option.some.injEq, ← String.toByteArray_inj]
    exact eq_comm
  · next hinvalid =>
    exact iff_of_false nofun fun heq => hinvalid (heq ▸ s.isValidUTF8)

end Text

namespace Form

variable {α β : Type}

/-- A form that reads back what it has read. -/
structure Faithful (f : Form α) : Prop where
  plain : ∀ a, (f.toJson a).Plain
  readsBack_of_ofJson? : ∀ {j a}, j.Within (Bytes.capacity 8) → f.ofJson? j = some a → f.ReadsBack a
  readsBack_of_readBytes : ∀ {bytes a rest}, f.readBytes bytes = some (a, rest) → f.ReadsBack a

/-- Where all values are read back, so are those that have been read. -/
theorem faithful_of_readsBack {f : Form α} (hplain : ∀ a, (f.toJson a).Plain)
    (h : ∀ a, f.ReadsBack a) : f.Faithful where
  plain := hplain
  readsBack_of_ofJson? _ _ := h _
  readsBack_of_readBytes _ := h _

/-- A form that stands for a faithful one is faithful, if it writes every value as what it is read from.
-/
theorem Faithful.convert {f : Form α} (h : f.Faithful) {write : β → α} {read : α → Option β}
    (hwrite : ∀ {a b}, read a = some b → write b = a) : (f.convert write read).Faithful where
  plain b := h.plain (write b)
  readsBack_of_ofJson? hwithin hread := by
    obtain ⟨a, ha, hb⟩ := Option.bind_eq_some_iff.mp hread
    cases hwrite hb
    exact (h.readsBack_of_ofJson? hwithin ha).convert hb
  readsBack_of_readBytes hread := by
    obtain ⟨⟨a, rest⟩, ha, hconvert⟩ := Option.bind_eq_some_iff.mp hread
    obtain ⟨b, hb, hfound⟩ := Option.map_eq_some_iff.mp hconvert
    cases hfound
    cases hwrite hb
    exact (h.readsBack_of_readBytes ha).convert hb

theorem faithful_uint8 : uint8.Faithful :=
  faithful_of_readsBack (fun b => .number b.toNat) readsBack_uint8

theorem readsBack_uint32 (n : UInt32) : uint32.ReadsBack n :=
  (readsBack_natural n.toNat_lt).convert (congrArg some UInt32.ofNat_toNat)

theorem faithful_uint32 : uint32.Faithful :=
  faithful_of_readsBack (fun n => .number n.toNat) readsBack_uint32

theorem readsBack_uint64 (n : UInt64) : uint64.ReadsBack n :=
  (readsBack_natural n.toNat_lt).convert (congrArg some UInt64.ofNat_toNat)

theorem faithful_uint64 : uint64.Faithful :=
  faithful_of_readsBack (fun n => .number n.toNat) readsBack_uint64

theorem readsBack_bool (b : Bool) : bool.ReadsBack b :=
  ⟨rfl, fun _ => by cases b <;> rfl⟩

theorem faithful_bool : bool.Faithful := faithful_of_readsBack .bool readsBack_bool

theorem plain_byteArray {width : Nat} (a : FixedBytes width) : ((byteArray width).toJson a).Plain :=
  .array fun item hitem => by
    obtain ⟨b, -, rfl⟩ := List.mem_map.mp hitem
    exact faithful_uint8.plain b

theorem faithful_byteArray (width : Nat) : (byteArray width).Faithful :=
  faithful_of_readsBack plain_byteArray readsBack_byteArray

theorem faithful_byteString {width : Nat} (h : width < Bytes.capacity 8) :
    (byteString width).Faithful :=
  faithful_of_readsBack plain_byteArray (readsBack_byteString h)

theorem readsBack_text {s : String} (h : (Text.utf8 s.toList).length < Bytes.capacity 8) :
    text.ReadsBack s where
  ofJson?_toJson := JsonString.text?_ofString s
  readBytes_toBytes rest := by
    simp [text, readCounted_append h, Text.fromUTF8?_eq_some_iff.mpr rfl]

theorem length_of_takeBytes {n : Nat} {bytes front rest : Bytes}
    (h : takeBytes n bytes = some (front, rest)) : front.length = n := by
  unfold takeBytes at h
  split at h
  · next hn =>
    cases h
    exact List.length_take_of_le hn
  · cases h

theorem lt_of_readBytes_natural {width n : Nat} {bytes rest : Bytes}
    (h : (natural width).readBytes bytes = some (n, rest)) : n < Bytes.capacity width := by
  obtain ⟨⟨digits, rest⟩, hdigits, hfound⟩ := Option.map_eq_some_iff.mp h
  cases hfound
  exact length_of_takeBytes hdigits ▸ Bytes.toNatLE_lt digits

theorem faithful_text : text.Faithful where
  plain := .string
  readsBack_of_ofJson? {j s} hwithin hread := by
    cases hwithin with
    | string hbytes => exact readsBack_text (JsonString.bytes_of_text? hread ▸ hbytes)
    | _ => cases hread
  readsBack_of_readBytes hread := by
    obtain ⟨⟨utf8, rest⟩, hcounted, hconvert⟩ := Option.bind_eq_some_iff.mp hread
    obtain ⟨s, hs, hfound⟩ := Option.map_eq_some_iff.mp hconvert
    cases hfound
    obtain ⟨⟨n, tail⟩, hn, htake⟩ := Option.bind_eq_some_iff.mp hcounted
    refine readsBack_text ?_
    rw [Text.fromUTF8?_eq_some_iff.mp hs, length_of_takeBytes htake]
    exact lt_of_readBytes_natural hn

/-! ## Lists and missing values -/

theorem readMany_append {f : Form α} {as : List α} (h : ∀ a ∈ as, f.ReadsBack a) (rest : Bytes) :
    f.readMany as.length (as.flatMap f.toBytes ++ rest) = some (as, rest) := by
  induction as with
  | nil => rfl
  | cons a as ih =>
    rw [List.forall_mem_cons] at h
    rw [List.flatMap_cons, List.append_assoc, List.length_cons, readMany, h.1.readBytes_toBytes]
    simp only [ih h.2]

theorem readsBack_list {f : Form α} {as : List α} (h : ∀ a ∈ as, f.ReadsBack a)
    (hlength : as.length < Bytes.capacity 8) : f.list.ReadsBack as where
  ofJson?_toJson := mapM_map_eq_some fun a ha => (h a ha).ofJson?_toJson
  readBytes_toBytes rest := by
    have hn : (natural 8).readBytes (writeLength as.length ++ (as.flatMap f.toBytes ++ rest)) =
        some (as.length, as.flatMap f.toBytes ++ rest) :=
      (readsBack_natural hlength).readBytes_toBytes _
    simp [list, hn, readMany_append h]

theorem forall_mem_of_mapM_eq_some {P : β → Prop} {read : α → Option β} {as : List α} {bs : List β}
    (h : as.mapM read = some bs) (hread : ∀ a ∈ as, ∀ b, read a = some b → P b) :
    bs.length = as.length ∧ ∀ b ∈ bs, P b := by
  induction as generalizing bs with
  | nil =>
    cases h
    exact ⟨rfl, nofun⟩
  | cons a as ih =>
    rw [List.forall_mem_cons] at hread
    simp only [List.mapM_cons, Option.bind_eq_bind, Option.bind_eq_some_iff, Option.pure_def,
      Option.some.injEq] at h
    obtain ⟨b, hb, bs, hbs, rfl⟩ := h
    obtain ⟨hlength, hall⟩ := ih hbs hread.2
    exact ⟨congrArg Nat.succ hlength, List.forall_mem_cons.mpr ⟨hread.1 b hb, hall⟩⟩

theorem Faithful.of_readMany {f : Form α} (h : f.Faithful) {count : Nat} {bytes rest : Bytes}
    {as : List α} (hread : f.readMany count bytes = some (as, rest)) :
    as.length = count ∧ ∀ a ∈ as, f.ReadsBack a := by
  induction count generalizing bytes as with
  | zero =>
    cases hread
    exact ⟨rfl, nofun⟩
  | succ count ih =>
    rw [readMany] at hread
    split at hread
    · cases hread
    · next a tail ha =>
      split at hread
      · cases hread
      · next as tail' has =>
        cases hread
        obtain ⟨hlength, hall⟩ := ih has
        exact ⟨congrArg Nat.succ hlength,
          List.forall_mem_cons.mpr ⟨h.readsBack_of_readBytes ha, hall⟩⟩

/-- Lists of faithful values are faithful: what has been read was counted in a word. -/
theorem Faithful.list {f : Form α} (h : f.Faithful) : f.list.Faithful where
  plain as := .array fun item hitem => by
    obtain ⟨a, -, rfl⟩ := List.mem_map.mp hitem
    exact h.plain a
  readsBack_of_ofJson? {j as} hwithin hread := by
    cases hwithin with
    | array hlength hitems =>
      obtain ⟨hcount, hall⟩ := forall_mem_of_mapM_eq_some hread fun item hitem a ha =>
        h.readsBack_of_ofJson? (hitems item hitem) ha
      exact readsBack_list hall (hcount ▸ hlength)
    | _ => cases hread
  readsBack_of_readBytes hread := by
    obtain ⟨⟨n, tail⟩, hn, hmany⟩ := Option.bind_eq_some_iff.mp hread
    obtain ⟨hcount, hall⟩ := h.of_readMany hmany
    exact readsBack_list hall (hcount ▸ lt_of_readBytes_natural hn)

theorem readsBack_none (f : Form α) : f.option.ReadsBack none := ⟨rfl, fun _ => rfl⟩

theorem readsBack_some {f : Form α} {a : α} (h : f.ReadsBack a) (hnull : f.toJson a ≠ .null) :
    f.option.ReadsBack (some a) where
  ofJson?_toJson := by
    show f.option.ofJson? (f.toJson a) = _
    simp [Form.option, h.ofJson?_toJson]
  readBytes_toBytes rest := by simp [Form.option, h.readBytes_toBytes]

/-- So are values that may be missing, if none is written as `null`. -/
theorem Faithful.option {f : Form α} (h : f.Faithful) (hnull : ∀ a, f.toJson a ≠ .null) :
    f.option.Faithful where
  plain
    | none => .null
    | some a => h.plain a
  readsBack_of_ofJson? {j a} hwithin hread := by
    unfold Form.option at hread
    simp only at hread
    split at hread
    · cases hread
      exact readsBack_none f
    · obtain ⟨a, ha, rfl⟩ := Option.map_eq_some_iff.mp hread
      exact readsBack_some (h.readsBack_of_ofJson? hwithin ha) (hnull a)
  readsBack_of_readBytes {bytes a rest} hread := by
    unfold Form.option at hread
    simp only at hread
    split at hread
    · cases hread
      exact readsBack_none f
    · obtain ⟨⟨a, rest⟩, ha, hfound⟩ := Option.map_eq_some_iff.mp hread
      cases hfound
      exact readsBack_some (h.readsBack_of_readBytes ha) (hnull a)
    · cases hread

end Form

/-! ## Structures -/

namespace Fields

variable {α β : Type}

/-- The parts of a value are found again in the JSON and in the bytes that they are written as. -/
structure ReadsBack (f : Fields α) (a : α) : Prop where
  ofJson?_toJson : f.ofJson? ((f.toJson a).map some) = some a
  readBytes_toBytes : ∀ rest, f.readBytes (f.toBytes a ++ rest) = some (a, rest)

/-- Parts that are read back where they have been read, also where some of them were missing. -/
structure Faithful (f : Fields α) : Prop where
  length_toJson : ∀ a, (f.toJson a).length = f.names.length
  plain : ∀ a, ∀ j ∈ f.toJson a, j.Plain
  readsBack_of_ofJson? : ∀ {parts a}, (∀ j, some j ∈ parts → j.Within (Bytes.capacity 8)) →
    f.ofJson? parts = some a → f.ReadsBack a
  readsBack_of_readBytes : ∀ {bytes a rest}, f.readBytes bytes = some (a, rest) → f.ReadsBack a

theorem readsBack_fieldOr (name : String) {f : Form α} {a : α} (h : f.ReadsBack a)
    (missing : Option α) : (fieldOr name f missing).ReadsBack a :=
  ⟨h.ofJson?_toJson, h.readBytes_toBytes⟩

theorem ReadsBack.and {f : Fields α} {g : Fields β} {a : α} {b : β} (ha : f.ReadsBack a)
    (hlength : (f.toJson a).length = f.names.length) (hb : g.ReadsBack b) :
    (f.and g).ReadsBack (a, b) where
  ofJson?_toJson := by simp [Fields.and, ← hlength, ha.ofJson?_toJson, hb.ofJson?_toJson]
  readBytes_toBytes rest := by simp [Fields.and, ha.readBytes_toBytes, hb.readBytes_toBytes]

theorem faithful_fieldOr (name : String) {f : Form α} {missing : Option α} (h : f.Faithful)
    (hmissing : ∀ a ∈ missing, f.ReadsBack a) : (fieldOr name f missing).Faithful where
  length_toJson _ := rfl
  plain a j hj := by
    cases List.mem_singleton.mp hj
    exact h.plain a
  readsBack_of_ofJson? {parts a} hparts hread := by
    unfold fieldOr at hread
    simp only at hread
    split at hread
    · exact readsBack_fieldOr name (h.readsBack_of_ofJson? (hparts _ List.mem_cons_self) hread) _
    · exact readsBack_fieldOr name (hmissing a hread) _
    · cases hread
  readsBack_of_readBytes hread := readsBack_fieldOr name (h.readsBack_of_readBytes hread) _

theorem faithful_field (name : String) {f : Form α} (h : f.Faithful) : (field name f).Faithful :=
  faithful_fieldOr name h nofun

/-- Fields stay faithful when they are put together. -/
theorem Faithful.and {f : Fields α} {g : Fields β} (hf : f.Faithful) (hg : g.Faithful) :
    (f.and g).Faithful where
  length_toJson p := by simp [Fields.and, hf.length_toJson, hg.length_toJson]
  plain p j hj := (List.mem_append.mp hj).elim (hf.plain p.1 j) (hg.plain p.2 j)
  readsBack_of_ofJson? {parts p} hparts hread := by
    unfold Fields.and at hread
    simp only at hread
    split at hread
    · next a b ha hb =>
      cases hread
      exact (hf.readsBack_of_ofJson? (fun j hj => hparts j (List.mem_of_mem_take hj)) ha).and
        (hf.length_toJson a)
        (hg.readsBack_of_ofJson? (fun j hj => hparts j (List.mem_of_mem_drop hj)) hb)
    · cases hread
  readsBack_of_readBytes {bytes p rest} hread := by
    unfold Fields.and at hread
    simp only at hread
    split at hread
    · cases hread
    · next a tail ha =>
      split at hread
      · cases hread
      · next b tail' hb =>
        cases hread
        exact (hf.readsBack_of_readBytes ha).and (hf.length_toJson a) (hg.readsBack_of_readBytes hb)

/-! ### Members by name -/

theorem ofMembers?_zip {names : List String} {known : List String} {values : List Json}
    (hknown : known ⊆ names) (hnodup : known.Nodup) :
    ofMembers? names ((known.map JsonString.ofString).zip values) = some (known.zip values) := by
  induction known generalizing values with
  | nil => rfl
  | cons name known ih =>
    rw [List.nodup_cons] at hnodup
    rw [List.cons_subset] at hknown
    cases values with
    | nil => rfl
    | cons value values =>
      have htwice : ((known.zip values).any fun found => found.1 = name) = false := by
        rw [List.any_eq_false]
        intro found hfound hname
        exact hnodup.1 (of_decide_eq_true hname ▸ (List.of_mem_zip hfound).1)
      simp [ofMembers?, JsonString.text?_ofString, ih hknown.2 hnodup.2, hknown.1, htwice]

theorem find?_zip_map {names : List String} {values : List Json} (hnodup : names.Nodup)
    (hlength : values.length = names.length) :
    names.map (fun name => ((names.zip values).find? (·.1 = name)).map (·.2)) = values.map some := by
  induction names generalizing values with
  | nil => simp [List.length_eq_zero_iff.mp hlength]
  | cons name names ih =>
    rw [List.nodup_cons] at hnodup
    cases values with
    | nil => cases hlength
    | cons value values =>
      have hrest : ∀ known ∈ names,
          (((name :: names).zip (value :: values)).find? (·.1 = known)).map (·.2) =
            ((names.zip values).find? (·.1 = known)).map (·.2) := by
        intro known hknown
        have hne : name ≠ known := fun heq => hnodup.1 (heq ▸ hknown)
        simp [hne]
      rw [List.map_cons, List.map_cons, List.map_congr_left hrest,
        ih hnodup.2 (Nat.succ.inj hlength)]
      simp

theorem parts?_zip {names : List String} {values : List Json} (hnodup : names.Nodup)
    (hlength : values.length = names.length) :
    parts? names (.object ((names.map JsonString.ofString).zip values)) =
      some (values.map some) := by
  rw [parts?, ofMembers?_zip (List.Subset.refl names) hnodup, Option.map_some,
    find?_zip_map hnodup hlength]

theorem within_of_ofMembers? {bound : Nat} {names : List String}
    {members : List (JsonString × Json)} {found : List (String × Json)}
    (h : ofMembers? names members = some found) (hmembers : ∀ member ∈ members, member.2.Within bound) :
    ∀ part ∈ found, part.2.Within bound := by
  fun_induction ofMembers? names members generalizing found with
  | case1 =>
    cases h
    exact nofun
  | case3 key value rest name found hfound _ _ _ ih =>
    rw [List.forall_mem_cons] at hmembers
    cases h
    exact List.forall_mem_cons.mpr ⟨hmembers.1, ih hfound hmembers.2⟩
  | case4 key value rest name found hfound _ _ _ ih =>
    cases h
    exact ih hfound (List.forall_mem_cons.mp hmembers).2
  | _ => cases h

theorem within_of_parts? {bound : Nat} {names : List String} {j : Json} {parts : List (Option Json)}
    (h : parts? names j = some parts) (hwithin : j.Within bound) :
    ∀ part, some part ∈ parts → part.Within bound := by
  cases hwithin with
  | object hvalues =>
    obtain ⟨found, hfound, rfl⟩ := Option.map_eq_some_iff.mp h
    intro part hpart
    obtain ⟨name, -, hname⟩ := List.mem_map.mp hpart
    obtain ⟨member, hmember, rfl⟩ := Option.map_eq_some_iff.mp hname
    exact within_of_ofMembers? hfound hvalues member (List.mem_of_find?_eq_some hmember)
  | array _ hitems =>
    rw [parts?] at h
    split at h
    · cases h
      intro part hpart
      rcases List.mem_append.mp hpart with hpart | hpart
      · obtain ⟨item, hitem, heq⟩ := List.mem_map.mp hpart
        exact Option.some.inj heq ▸ hitems item hitem
      · cases List.eq_of_mem_replicate hpart
    · cases h
  | _ => cases h

/-- A structure is read back if its fields are. -/
theorem ReadsBack.form {f : Fields α} {a : α} (h : f.ReadsBack a) (hnodup : f.names.Nodup)
    (hlength : (f.toJson a).length = f.names.length) : f.form.ReadsBack a where
  ofJson?_toJson := by simp [Fields.form, parts?_zip hnodup hlength, h.ofJson?_toJson]
  readBytes_toBytes := h.readBytes_toBytes

/-- A structure is faithful if its fields are and no two have one name. -/
theorem Faithful.form {f : Fields α} (h : f.Faithful) (hnodup : f.names.Nodup) :
    f.form.Faithful where
  plain a := by
    refine .object (fun member hmember => ?_) fun member hmember => ?_
    · obtain ⟨name, -, hname⟩ := List.mem_map.mp (List.of_mem_zip hmember).1
      exact ⟨name, hname.symm⟩
    · exact h.plain a _ (List.of_mem_zip hmember).2
  readsBack_of_ofJson? {j a} hwithin hread := by
    obtain ⟨parts, hparts, ha⟩ := Option.bind_eq_some_iff.mp hread
    exact (h.readsBack_of_ofJson? (within_of_parts? hparts hwithin) ha).form hnodup
      (h.length_toJson a)
  readsBack_of_readBytes {bytes a rest} hread :=
    (h.readsBack_of_readBytes hread).form hnodup (h.length_toJson a)

end Fields

end StakeGuard
