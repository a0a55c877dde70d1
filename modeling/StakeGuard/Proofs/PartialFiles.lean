import Mathlib.Data.List.Nodup
import StakeGuard.Proofs.JsonText
import StakeGuard.Proofs.Layering

/-!
# Files that leave entries out

A file may state some entries of a configuration and leave out others, in any order and among members that
mean nothing to it (`Layer.StatedBy`), and a section none of whose entries it states may be missing as a
whole. What an object says of each field does not depend on any of this (`Fields.parts?_of_holds`). Main
statement: whatever of a configuration is left out of a file is the default's when the file is read, and an
empty section is none (`Configuration.ofJsonText?_keeping`).
-/

namespace StakeGuard

/-! ## Members by name -/

namespace Fields

variable {names : List String} {members : List (JsonString × Json)} {found : List (String × Json)}

/-- The member as a field, if its key names one. -/
def known? (names : List String) (member : JsonString × Json) : Option (String × Json) :=
  member.1.text?.bind fun name => if name ∈ names then some (name, member.2) else none

/-- The key is a text, and where it does not name a field, the value may be passed over. -/
def Admissible (names : List String) (member : JsonString × Json) : Prop :=
  ∃ name, member.1.text? = some name ∧ (name ∈ names ∨ member.2.isClean)

theorem filterMap_known?_cons {key : JsonString} {name : String} (h : key.text? = some name)
    (value : Json) (rest : List (JsonString × Json)) :
    ((key, value) :: rest).filterMap (known? names) =
      if name ∈ names then (name, value) :: rest.filterMap (known? names)
      else rest.filterMap (known? names) := by
  split <;> simp_all [known?]

/-- The fields among members are found if none of them comes twice. -/
theorem ofMembers?_of_nodup (hadmissible : ∀ member ∈ members, Admissible names member)
    (hnodup : ((members.filterMap (known? names)).map Prod.fst).Nodup) :
    ofMembers? names members = some (members.filterMap (known? names)) := by
  induction members with
  | nil => rfl
  | cons member rest ih =>
    obtain ⟨key, value⟩ := member
    obtain ⟨⟨name, hkey, hclean⟩, hrest⟩ := List.forall_mem_cons.mp hadmissible
    rw [filterMap_known?_cons hkey] at hnodup ⊢
    by_cases hname : name ∈ names
    · rw [if_pos hname, List.map_cons, List.nodup_cons] at hnodup
      have hfresh : ((rest.filterMap (known? names)).any fun part => part.1 = name) = false := by
        rw [List.any_eq_false]
        intro part hpart heq
        exact hnodup.1 (List.mem_map.mpr ⟨part, hpart, of_decide_eq_true heq⟩)
      simp only [ofMembers?, hkey, ih hrest hnodup.2, hname, hfresh]
      rfl
    · rw [if_neg hname] at hnodup ⊢
      simp only [ofMembers?, hkey, ih hrest hnodup, hname, hclean.resolve_left hname]
      rfl

theorem of_ofMembers? (h : ofMembers? names members = some found) :
    members.filterMap (known? names) = found ∧ (found.map Prod.fst).Nodup ∧
      ∀ member ∈ members, Admissible names member := by
  fun_induction ofMembers? names members generalizing found with
  | case1 =>
    cases h
    exact ⟨rfl, .nil, fun _ hmem => absurd hmem List.not_mem_nil⟩
  | case3 key value rest name later hlater hkey hname hfresh ih =>
    cases h
    obtain ⟨hfound, hnodup, hrest⟩ := ih hlater
    rw [filterMap_known?_cons hkey, if_pos hname, hfound]
    refine ⟨rfl, List.nodup_cons.mpr ⟨fun hmem => ?_, hnodup⟩,
      List.forall_mem_cons.mpr ⟨⟨name, hkey, .inl hname⟩, hrest⟩⟩
    obtain ⟨part, hpart, heq⟩ := List.mem_map.mp hmem
    exact hfresh (List.any_eq_true.mpr ⟨part, hpart, decide_eq_true heq⟩)
  | case4 key value rest name later hlater hkey hname hclean ih =>
    cases h
    obtain ⟨hfound, hnodup, hrest⟩ := ih hlater
    rw [filterMap_known?_cons hkey, if_neg hname]
    exact ⟨hfound, hnodup, List.forall_mem_cons.mpr ⟨⟨name, hkey, .inr hclean⟩, hrest⟩⟩
  | _ => cases h

/-- What is found are the members of known names, in order. No name comes twice among them, and every
member is admissible. -/
theorem ofMembers?_eq_some_iff :
    ofMembers? names members = some found ↔
      members.filterMap (known? names) = found ∧ (found.map Prod.fst).Nodup ∧
        ∀ member ∈ members, Admissible names member := by
  refine ⟨of_ofMembers?, ?_⟩
  rintro ⟨rfl, hnodup, hadmissible⟩
  exact ofMembers?_of_nodup hadmissible hnodup

/-- What has been found of a field. -/
def said (found : List (String × Json)) (name : String) : Option Json :=
  (found.find? (·.1 = name)).map (·.2)

theorem said_eq_some_iff (hnodup : (found.map Prod.fst).Nodup) {name : String} {value : Json} :
    said found name = some value ↔ (name, value) ∈ found := by
  rw [said, Option.map_eq_some_iff]
  constructor
  · rintro ⟨part, hpart, rfl⟩
    have hname : part.1 = name := by simpa using List.find?_some hpart
    exact hname ▸ List.mem_of_find?_eq_some hpart
  · intro hmem
    obtain ⟨part, hpart⟩ : ∃ part, found.find? (·.1 = name) = some part := by
      rw [← Option.isSome_iff_exists, List.find?_isSome]
      exact ⟨_, hmem, decide_eq_true rfl⟩
    have hname : part.1 = name := by simpa using List.find?_some hpart
    have hsame := List.inj_on_of_nodup_map hnodup (List.mem_of_find?_eq_some hpart) hmem hname
    exact ⟨part, hpart, congrArg Prod.snd hsame⟩

/-! ## Objects of fields -/

/-- The parts that are there, by their names. -/
def present (parts : List (String × Option Json)) : List (String × Json) :=
  parts.filterMap fun (name, part) => part.map (name, ·)

/-- An object of the parts that are there, in any order and among any members with other names. -/
inductive Holds (parts : List (String × Option Json)) : Json → Prop where
  | intro {fields others : List (String × Json)} (hfields : fields.Perm (present parts ++ others))
      (hothers : ∀ other ∈ others, other.1 ∉ parts.map Prod.fst) :
      Holds parts (.object (fields.map fun (name, value) => (.ofString name, value)))

/-- An object of parts, or nothing if there are none. -/
inductive MayHold (parts : List (String × Option Json)) : Option Json → Prop where
  | omitted (h : ∀ part ∈ parts, part.2 = none) : MayHold parts none
  | given {j : Json} (h : Holds parts j) : MayHold parts (some j)

variable {parts : List (String × Option Json)}

theorem mem_present_iff {name : String} {value : Json} :
    (name, value) ∈ present parts ↔ (name, some value) ∈ parts := by
  simp only [present, List.mem_filterMap, Option.map_eq_some_iff, Prod.mk.injEq, Prod.exists]
  constructor
  · rintro ⟨_, _, hmem, _, rfl, rfl, rfl⟩
    exact hmem
  · exact fun hmem => ⟨name, some value, hmem, value, rfl, rfl, rfl⟩

theorem map_present_sublist : ((present parts).map Prod.fst).Sublist (parts.map Prod.fst) := by
  induction parts with
  | nil => exact .slnil
  | cons part rest ih =>
    obtain ⟨name, value⟩ := part
    cases value with
    | none => exact ih.cons name
    | some value => exact ih.cons_cons name

theorem filterMap_known?_map (fields : List (String × Json)) :
    (fields.map fun (name, value) => (JsonString.ofString name, value)).filterMap (known? names) =
      fields.filter (·.1 ∈ names) := by
  induction fields with
  | nil => rfl
  | cons field rest ih =>
    obtain ⟨name, value⟩ := field
    rw [List.map_cons, filterMap_known?_cons (JsonString.text?_ofString name), ih, List.filter_cons]
    simp only [decide_eq_true_eq]

theorem filter_present_append {others : List (String × Json)}
    (hothers : ∀ other ∈ others, other.1 ∉ parts.map Prod.fst) :
    (present parts ++ others).filter (·.1 ∈ parts.map Prod.fst) = present parts := by
  have hkept : (present parts).filter (·.1 ∈ parts.map Prod.fst) = present parts :=
    List.filter_eq_self.mpr fun part hpart =>
      decide_eq_true (map_present_sublist.subset (List.mem_map_of_mem hpart))
  have hdropped : others.filter (·.1 ∈ parts.map Prod.fst) = [] :=
    List.filter_eq_nil_iff.mpr fun other hother => by simpa using hothers other hother
  rw [List.filter_append, hkept, hdropped, List.append_nil]

/-- What an object says of its parts is what they are, in whatever order and whatever else is there. -/
theorem parts?_of_holds {j : Json} (h : Holds parts j) (hnodup : (parts.map Prod.fst).Nodup)
    (hclean : j.isClean) : parts? (parts.map Prod.fst) j = some (parts.map Prod.snd) := by
  obtain ⟨hfields, hothers⟩ := h
  rename_i fields others
  have hperm := hfields.filter fun field => decide (field.1 ∈ parts.map Prod.fst)
  rw [filter_present_append hothers] at hperm
  have hfresh : ((fields.filter (·.1 ∈ parts.map Prod.fst)).map Prod.fst).Nodup :=
    (hperm.map Prod.fst).nodup_iff.mpr (map_present_sublist.nodup hnodup)
  have hfound := ofMembers?_eq_some_iff.mpr ⟨filterMap_known?_map fields, hfresh, by
    intro member hmember
    have hvalue := Json.isClean_of_mem hclean member hmember
    obtain ⟨field, -, rfl⟩ := List.mem_map.mp hmember
    exact ⟨field.1, JsonString.text?_ofString field.1, .inr hvalue⟩⟩
  rw [parts?, hfound, Option.map_some, List.map_map]
  refine congrArg some (List.map_congr_left fun part hpart => Option.ext fun value => ?_)
  obtain ⟨name, stated⟩ := part
  calc said (fields.filter (·.1 ∈ parts.map Prod.fst)) name = some value
    _ ↔ (name, some value) ∈ parts :=
      (said_eq_some_iff hfresh).trans (hperm.mem_iff.trans mem_present_iff)
    _ ↔ stated = some value :=
      ⟨fun hmem => congrArg Prod.snd (List.inj_on_of_nodup_map hnodup hpart hmem rfl),
        fun heq => heq ▸ hpart⟩

theorem isClean_of_holds {j : Json} (h : Holds parts j) (hclean : j.isClean) (name : String)
    {value : Json} (hpart : (name, some value) ∈ parts) : value.isClean := by
  obtain ⟨hfields, -⟩ := h
  have hmem := hfields.mem_iff.mpr (List.mem_append_left _ (mem_present_iff.mpr hpart))
  exact Json.isClean_of_mem hclean _ (List.mem_map_of_mem hmem)

/-- A section that may hold some parts says just these; a missing one says that there are none. -/
theorem partsOf?_of_mayHold {part : Option Json} (h : MayHold parts part)
    (hnodup : (parts.map Prod.fst).Nodup) (hclean : ∀ j ∈ part, j.isClean) :
    Layer.partsOf? (parts.map Prod.fst) part = some (parts.map Prod.snd) := by
  cases h with
  | omitted h =>
    rw [Layer.partsOf?, List.map_map]
    exact congrArg some (List.map_congr_left fun part hpart => (h part hpart).symm)
  | given h => exact parts?_of_holds h hnodup (hclean _ rfl)

/-! ## One member more -/

section insert

variable {name : String} {key : JsonString} {value : Json} {before after : List (JsonString × Json)}

theorem notMem_of_absent (habsent : ∀ member ∈ members, member.1.text? ≠ some name) :
    name ∉ (members.filterMap (known? names)).map Prod.fst := by
  intro hmem
  obtain ⟨part, hpart, rfl⟩ := List.mem_map.mp hmem
  obtain ⟨member, hmember, hknown⟩ := List.mem_filterMap.mp hpart
  obtain ⟨known, hkey, hfield⟩ := Option.bind_eq_some_iff.mp hknown
  split at hfield
  · cases hfield
    exact habsent member hmember hkey
  · cases hfield

theorem filterMap_known?_insert (hkey : key.text? = some name) (hname : name ∈ names) (value : Json)
    (before after : List (JsonString × Json)) :
    ((before ++ (key, value) :: after).filterMap (known? names)).Perm
      ((name, value) :: (before ++ after).filterMap (known? names)) := by
  rw [List.filterMap_append, filterMap_known?_cons hkey, if_pos hname, List.filterMap_append]
  exact List.perm_middle

theorem admissible_insert_iff (hkey : key.text? = some name) (hname : name ∈ names) :
    (∀ member ∈ before ++ (key, value) :: after, Admissible names member) ↔
      ∀ member ∈ before ++ after, Admissible names member := by
  have hown : Admissible names (key, value) := ⟨name, hkey, .inl hname⟩
  simp only [List.forall_mem_append, List.forall_mem_cons, hown, true_and]

/-- A field that has not been there is found beside the others. -/
theorem exists_found_insert (hkey : key.text? = some name) (hname : name ∈ names)
    (habsent : ∀ member ∈ before ++ after, member.1.text? ≠ some name)
    (h : ofMembers? names (before ++ after) = some found) (value : Json) :
    ∃ more, ofMembers? names (before ++ (key, value) :: after) = some more ∧
      said found name = none ∧ said more name = some value ∧
      ∀ other, other ≠ name → said more other = said found other := by
  obtain ⟨rfl, hnodup, hadmissible⟩ := of_ofMembers? h
  have hperm := filterMap_known?_insert hkey hname value before after
  have hmore : ((before ++ (key, value) :: after).filterMap (known? names) |>.map Prod.fst).Nodup :=
    (hperm.map Prod.fst).nodup_iff.mpr (List.nodup_cons.mpr ⟨notMem_of_absent habsent, hnodup⟩)
  refine ⟨_, ofMembers?_of_nodup ((admissible_insert_iff hkey hname).mpr hadmissible) hmore, ?_,
    (said_eq_some_iff hmore).mpr (hperm.mem_iff.mpr List.mem_cons_self), fun other hother => ?_⟩
  · refine Option.eq_none_iff_forall_ne_some.mpr fun value hsaid => ?_
    exact notMem_of_absent habsent (List.mem_map_of_mem ((said_eq_some_iff hnodup).mp hsaid))
  · refine Option.ext fun value => ?_
    rw [said_eq_some_iff hmore, said_eq_some_iff hnodup, hperm.mem_iff, List.mem_cons]
    exact or_iff_right fun heq => hother (congrArg Prod.fst heq)

/-- One more field does not repair what cannot be read. -/
theorem ofMembers?_insert_eq_none (hkey : key.text? = some name) (hname : name ∈ names)
    (h : ofMembers? names (before ++ after) = none) :
    ofMembers? names (before ++ (key, value) :: after) = none := by
  refine Option.eq_none_iff_forall_ne_some.mpr fun more hmore => ?_
  obtain ⟨rfl, hnodup, hadmissible⟩ := of_ofMembers? hmore
  rw [((filterMap_known?_insert hkey hname value before after).map Prod.fst).nodup_iff, List.map_cons,
    List.nodup_cons] at hnodup
  rw [ofMembers?_of_nodup ((admissible_insert_iff hkey hname).mp hadmissible) hnodup.2] at h
  cases h

end insert

end Fields

/-! ## Files -/

namespace Layer

open Form (uint32 uint64 text bool)

variable {l : Layer} {j : Json}

/-- The members of the section of the pools, those that are not stated left out. -/
def poolParts (l : Layer) : List (String × Option Json) := [
  ("vdrAllocSize", l.validatorPool.map uint64.toJson),
  ("atLargeAllocSize", l.atLargePool.map uint64.toJson),
  ("nodeMaxAtLargeBytes", l.nodeCap.map uint64.toJson)]

/-- The members of the section of the quorum. -/
def fractionParts (l : Layer) : List (String × Option Json) := [
  ("quorumNum", l.num.map uint64.toJson),
  ("quorumDen", l.den.map uint64.toJson)]

/-- The members of the section of the logging. -/
def logParts (l : Layer) : List (String × Option Json) := [
  ("level", l.level.map text.toJson),
  ("json", l.json.map bool.toJson)]

/-- A file that states the entries of a layer and no others. -/
inductive StatedBy (l : Layer) : Json → Prop where
  | intro {throttler quorum logging : Option Json} {j : Json}
      (hthrottler : Fields.MayHold l.poolParts throttler)
      (hquorum : Fields.MayHold l.fractionParts quorum)
      (hlogging : Fields.MayHold l.logParts logging)
      (h : Fields.Holds [("networkId", l.network.map uint32.toJson), ("throttler", throttler),
        ("quorum", quorum), ("logging", logging)] j) : StatedBy l j

theorem stated?_map {α : Type} {f : Form α} (h : ∀ a, f.ofJson? (f.toJson a) = some a)
    (entry : Option α) : stated? f (entry.map f.toJson) = some entry := by
  cases entry with
  | none => rfl
  | some a => simp [stated?, h]

theorem stated?_uint64 (entry : Option UInt64) : stated? uint64 (entry.map uint64.toJson) = some entry :=
  stated?_map (fun n => (Form.readsBack_uint64 n).ofJson?_toJson) entry

/-- A section that holds the pools of a layer says them, and so does a missing one if the layer says
none. -/
theorem pools?_of_mayHold {throttler : Option Json} (h : Fields.MayHold l.poolParts throttler)
    (hclean : ∀ j ∈ throttler, j.isClean) :
    pools? throttler = some (l.validatorPool, l.atLargePool, l.nodeCap) := by
  have hparts := Fields.partsOf?_of_mayHold h (by simp [poolParts]) hclean
  simp only [poolParts, List.map_cons, List.map_nil] at hparts
  simp [pools?, hparts, stated?_uint64]

theorem fraction?_of_mayHold {quorum : Option Json} (h : Fields.MayHold l.fractionParts quorum)
    (hclean : ∀ j ∈ quorum, j.isClean) : fraction? quorum = some (l.num, l.den) := by
  have hparts := Fields.partsOf?_of_mayHold h (by simp [fractionParts]) hclean
  simp only [fractionParts, List.map_cons, List.map_nil] at hparts
  simp [fraction?, hparts, stated?_uint64]

theorem logs?_of_mayHold {logging : Option Json} (h : Fields.MayHold l.logParts logging)
    (hclean : ∀ j ∈ logging, j.isClean) : logs? logging = some (l.level, l.json) := by
  have hparts := Fields.partsOf?_of_mayHold h (by simp [logParts]) hclean
  simp only [logParts, List.map_cons, List.map_nil] at hparts
  simp [logs?, hparts, stated?_map (f := text) JsonString.text?_ofString,
    stated?_map (f := bool) fun b => (Form.readsBack_bool b).ofJson?_toJson]

/-- A file says the entries that it states. -/
theorem ofJson?_of_statedBy (h : l.StatedBy j) (hclean : j.isClean) : ofJson? j = some l := by
  obtain ⟨hthrottler, hquorum, hlogging, h⟩ := h
  have hparts := Fields.parts?_of_holds h (by simp) hclean
  simp only [List.map_cons, List.map_nil] at hparts
  have hpools := pools?_of_mayHold hthrottler fun part hpart =>
    Fields.isClean_of_holds h hclean "throttler" (by simp_all)
  have hfraction := fraction?_of_mayHold hquorum fun part hpart =>
    Fields.isClean_of_holds h hclean "quorum" (by simp_all)
  have hlogs := logs?_of_mayHold hlogging fun part hpart =>
    Fields.isClean_of_holds h hclean "logging" (by simp_all)
  have hnetwork := stated?_map (f := uint32) (fun n => (Form.readsBack_uint32 n).ofJson?_toJson) l.network
  simp [ofJson?, hparts, hnetwork, hpools, hfraction, hlogs]

/-! ### Sections -/

/-- The parts of a file that have parts of their own. -/
inductive Part where
  | throttler | quorum | logging

/-- The name of the section. -/
def Part.name : Part → String
  | throttler => "throttler"
  | quorum => "quorum"
  | logging => "logging"

/-- What the parts of a file say, by their names. -/
def ofParts? (parts : String → Option Json) : Option Layer := do
  let network ← stated? uint32 (parts "networkId")
  let (validatorPool, atLargePool, nodeCap) ← pools? (parts "throttler")
  let (num, den) ← fraction? (parts "quorum")
  let (level, json) ← logs? (parts "logging")
  return { network, validatorPool, atLargePool, nodeCap, num, den, level, json }

theorem ofJson?_object (members : List (JsonString × Json)) :
    ofJson? (.object members) =
      (Fields.ofMembers? ["networkId", "throttler", "quorum", "logging"] members).bind fun found =>
        ofParts? (Fields.said found) := by
  rw [ofJson?, Fields.parts?]
  cases Fields.ofMembers? ["networkId", "throttler", "quorum", "logging"] members <;> rfl

/-- What a file says depends on what each of its sections says. -/
theorem ofParts?_congr {parts others : String → Option Json}
    (hnetwork : parts "networkId" = others "networkId")
    (hpools : pools? (parts "throttler") = pools? (others "throttler"))
    (hfraction : fraction? (parts "quorum") = fraction? (others "quorum"))
    (hlogs : logs? (parts "logging") = logs? (others "logging")) : ofParts? parts = ofParts? others := by
  rw [ofParts?, ofParts?, hnetwork, hpools, hfraction, hlogs]

/-- A file with an empty section says what it says without that section. -/
theorem ofJson?_empty (part : Part) {before after : List (JsonString × Json)}
    (habsent : ∀ member ∈ before ++ after, member.1.text? ≠ some part.name) :
    ofJson? (.object (before ++ (.ofString part.name, .object []) :: after)) =
      ofJson? (.object (before ++ after)) := by
  have hname : part.name ∈ ["networkId", "throttler", "quorum", "logging"] := by
    cases part <;> simp [Part.name]
  have hkey := JsonString.text?_ofString part.name
  rw [ofJson?_object, ofJson?_object]
  cases h : Fields.ofMembers? ["networkId", "throttler", "quorum", "logging"] (before ++ after) with
  | none => rw [Fields.ofMembers?_insert_eq_none hkey hname h]
  | some found =>
    obtain ⟨more, hmore, hnone, hempty, hother⟩ :=
      Fields.exists_found_insert hkey hname habsent h (.object [])
    -- no reader of a section tells an empty one from none
    have hread {β : Type} {read : Option Json → β} (hread : read (some (.object [])) = read none)
        (other : String) : read (Fields.said more other) = read (Fields.said found other) := by
      by_cases heq : other = part.name
      · rw [heq, hempty, hnone, hread]
      · rw [hother other heq]
    have hnetwork : "networkId" ≠ part.name := by cases part <;> decide
    rw [hmore]
    exact ofParts?_congr (hother _ hnetwork) (hread rfl _) (hread rfl _) (hread rfl _)

end Layer

namespace Configuration

/-- Which entries of a configuration a file keeps. -/
structure Choice where
  network : Bool
  validatorPool : Bool
  atLargePool : Bool
  nodeCap : Bool
  num : Bool
  den : Bool
  level : Bool
  json : Bool

/-- The entries of a configuration that are kept. -/
def keeping (c : Configuration) (kept : Choice) : Layer where
  network := if kept.network then some c.network else none
  validatorPool := if kept.validatorPool then some c.throttle.validatorPool else none
  atLargePool := if kept.atLargePool then some c.throttle.atLargePool else none
  nodeCap := if kept.nodeCap then some c.throttle.nodeCap else none
  num := if kept.num then some c.quorum.num else none
  den := if kept.den then some c.quorum.den else none
  level := if kept.level then some c.logging.level else none
  json := if kept.json then some c.logging.json else none

/-- The configuration with the default's entries in place of those that are not kept. -/
def resetBut (c : Configuration) (kept : Choice) : Configuration where
  network := if kept.network then c.network else default.network
  throttle :=
    { validatorPool := if kept.validatorPool then c.throttle.validatorPool else default.throttle.validatorPool
      atLargePool := if kept.atLargePool then c.throttle.atLargePool else default.throttle.atLargePool
      nodeCap := if kept.nodeCap then c.throttle.nodeCap else default.throttle.nodeCap }
  quorum :=
    { num := if kept.num then c.quorum.num else default.quorum.num
      den := if kept.den then c.quorum.den else default.quorum.den }
  logging :=
    { level := if kept.level then c.logging.level else default.logging.level
      json := if kept.json then c.logging.json else default.logging.json }

/-- What is kept over the default is the configuration with all other entries reset. -/
theorem onto_keeping (c : Configuration) (kept : Choice) :
    (c.keeping kept).onto default = c.resetBut kept := by
  have hentry {α : Type} (keep : Bool) (a b : α) :
      (if keep then some a else none).getD b = if keep then a else b := by
    cases keep <;> rfl
  simp only [Layer.onto, keeping, resetBut, hentry]

/-- A text of the grammar is read as what its value says over the default. -/
theorem ofJsonText?_of_written {j : Json} {text : List Char} (h : Json.Written j text) :
    Form.configuration.ofJsonText? text = (Layer.ofJson? j).map (·.onto default) := by
  rw [Form.ofJsonText?, Json.parse_of_written h, Option.bind_some, Layer.ofJson?_configuration]

/-- **Partial files overlay the default.** A text that writes any of a configuration's entries, in any order
and among any members that mean nothing, is read as the configuration with the default's entries in place
of the others; and an empty section may as well be left out. -/
theorem ofJsonText?_keeping (c : Configuration) (kept : Choice) :
    (∀ j text, (c.keeping kept).StatedBy j → Json.Written j text →
      Form.configuration.ofJsonText? text = some (c.resetBut kept)) ∧
    ∀ (part : Layer.Part) (before after : List (JsonString × Json)) (text text' : List Char),
      (∀ member ∈ before ++ after, member.1.text? ≠ some part.name) →
      Json.Written (.object (before ++ after)) text →
      Json.Written (.object (before ++ (.ofString part.name, .object []) :: after)) text' →
      Form.configuration.ofJsonText? text' = Form.configuration.ofJsonText? text := by
  constructor
  · intro j text hstated htext
    rw [ofJsonText?_of_written htext, Layer.ofJson?_of_statedBy hstated htext.isClean, Option.map_some,
      onto_keeping]
  · intro part before after text text' habsent htext htext'
    rw [ofJsonText?_of_written htext, ofJsonText?_of_written htext', Layer.ofJson?_empty part habsent]

/-- A file that states two entries, the later one first and beside a member that means nothing. -/
def statingFile : Json :=
  .object [(.ofString "quorum",
      .object [(.ofString "unknown", .array [.null]), (.ofString "quorumDen", .ofNat 4)]),
    (.ofString "networkId", .ofNat 5)]

theorem plain_statingFile : statingFile.Plain := by
  have hquorum : Json.Plain
      (.object [(.ofString "unknown", .array [.null]), (.ofString "quorumDen", .ofNat 4)]) := by
    refine .object (by simp) ?_
    simpa using ⟨.array (by simp [Json.Plain.null]), Json.Plain.number 4⟩
  refine .object (by simp) ?_
  simpa using ⟨hquorum, Json.Plain.number 5⟩

/-- Two entries of different sections, with a stranger among the members and a section left out. -/
theorem ofJsonText?_keeping_two :
    let c : Configuration := ⟨5, ⟨64, 7, 8⟩, ⟨3, 4⟩, ⟨"debug", true⟩⟩
    let kept : Choice := ⟨true, false, false, false, false, true, false, false⟩
    (c.keeping kept).StatedBy statingFile ∧ Json.Written statingFile statingFile.render ∧
      Form.configuration.ofJsonText? statingFile.render =
        some { default with network := 5, quorum.den := 4 } ∧
      Form.configuration.ofJsonText? "\x7b\"quorum\":\x7b\x7d\x7d".toList =
        Form.configuration.ofJsonText? "\x7b\x7d".toList := by
  intro c kept
  have hquorum : Fields.MayHold (c.keeping kept).fractionParts
      (some (.object [(.ofString "unknown", .array [.null]), (.ofString "quorumDen", .ofNat 4)])) :=
    .given (@Fields.Holds.intro _ [("unknown", .array [.null]), ("quorumDen", .ofNat 4)]
      [("unknown", .array [.null])] (.swap _ _ _) (by simp [Layer.fractionParts]))
  have hstated : (c.keeping kept).StatedBy statingFile :=
    .intro (.omitted (by simp [c, kept, keeping, Layer.poolParts])) hquorum
      (.omitted (by simp [c, kept, keeping, Layer.logParts]))
      (@Fields.Holds.intro _ [("quorum", _), ("networkId", .ofNat 5)] [] (.swap _ _ _) nofun)
  have hwritten := plain_statingFile.bare.written
  have hempty : Json.Written (.object []) "\x7b\x7d".toList := (Json.Bare.emptyObject Json.blank_nil).written
  have hsection : Json.Written (.object [(.ofString "quorum", .object [])])
      "\x7b\"quorum\":\x7b\x7d\x7d".toList :=
    (Json.Plain.object (by simp) (by simpa using .object (by simp) (by simp))).bare.written
  obtain ⟨hread, hskip⟩ := ofJsonText?_keeping c kept
  exact ⟨hstated, hwritten, hread _ _ hstated hwritten, hskip .quorum [] [] _ _ nofun hempty hsection⟩

end Configuration

end StakeGuard
