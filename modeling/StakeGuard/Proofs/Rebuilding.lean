import StakeGuard.Proofs.SnapshotWeight
import StakeGuard.Proofs.StakeRefinement

/-!
# Building validator sets from snapshots

A set is built by adding the validators of a snapshot one after the other, and the first one that has no
weight, has been there or weighs too much ends it (`Snapshot.FirstRefused`). A consistent set is determined
by its list, so the one that is built from the list of another has the same slots, look-ups and total
(`ValidatorSet.Rebuilds`). Main statement: `ValidatorSet.rebuilds_of_list`.
-/

namespace StakeGuard

variable {snapshot before after : Snapshot} {v : Validator} {e : ValidatorError}

namespace Snapshot

/-- The validators can stand in one set. -/
structure Admissible (snapshot : Snapshot) : Prop where
  weight_ne_zero : ∀ v ∈ snapshot, v.weight ≠ 0
  nodes_nodup : (snapshot.map (·.node)).Nodup
  weight_lt : snapshot.weight < Amount.bound

/-- A validator cannot join those before it, for the first of three reasons that applies. -/
inductive Refused (before : Snapshot) (v : Validator) : ValidatorError → Prop
  | weightless : v.weight = 0 → Refused before v (.zeroWeight v.node)
  | repeated : v.weight ≠ 0 → v.node ∈ before.map (·.node) →
      Refused before v (.duplicateIdentity v.node)
  | overflowing : v.weight ≠ 0 → v.node ∉ before.map (·.node) →
      Amount.bound ≤ before.weight + v.weight.toNat →
      Refused before v (.weightOverflow (.ofNat before.weight) v.weight)

/-- The first validator that cannot join those before it is refused with the error. -/
def FirstRefused (snapshot : Snapshot) (e : ValidatorError) : Prop :=
  ∃ before v after, snapshot = before ++ v :: after ∧ Admissible before ∧ Refused before v e

theorem weight_concat (snapshot : Snapshot) (v : Validator) :
    Snapshot.weight (snapshot ++ [v]) = snapshot.weight + v.weight.toNat := by
  simp [weight_eq_sum]

theorem admissible_nil : Admissible [] := ⟨nofun, List.nodup_nil, by decide⟩

theorem Admissible.of_append (h : Admissible (before ++ after)) : Admissible before where
  weight_ne_zero w hw := h.weight_ne_zero w (List.mem_append_left after hw)
  nodes_nodup := h.nodes_nodup.sublist ((List.sublist_append_left before after).map _)
  weight_lt :=
    Nat.lt_of_le_of_lt (weight_le_of_sublist (List.sublist_append_left before after)) h.weight_lt

theorem admissible_concat_iff : Admissible (before ++ [v]) ↔ Admissible before ∧
    v.weight ≠ 0 ∧ v.node ∉ before.map (·.node) ∧ before.weight + v.weight.toNat < Amount.bound := by
  constructor
  · intro h
    have hnodup := h.nodes_nodup
    rw [List.map_append, List.map_singleton, List.nodup_append] at hnodup
    exact ⟨h.of_append, h.weight_ne_zero v List.mem_concat_self,
      fun hmem => hnodup.2.2 _ hmem _ (List.mem_singleton_self _) rfl,
      weight_concat before v ▸ h.weight_lt⟩
  · rintro ⟨h, hweight, hnode, hfits⟩
    refine ⟨fun w hw => ?_, ?_, (weight_concat before v).symm ▸ hfits⟩
    · rcases List.mem_append.mp hw with hw | hw
      · exact h.weight_ne_zero w hw
      · exact List.mem_singleton.mp hw ▸ hweight
    · rw [List.map_append, List.map_singleton, List.nodup_append]
      refine ⟨h.nodes_nodup, List.nodup_singleton _, fun a ha b hb => ?_⟩
      rintro rfl
      exact hnode (List.mem_singleton.mp hb ▸ ha)

theorem Admissible.concat_or_refused (h : Admissible before) (v : Validator) :
    Admissible (before ++ [v]) ∨ ∃ e, Refused before v e := by
  by_cases hweight : v.weight = 0
  · exact .inr ⟨_, .weightless hweight⟩
  by_cases hnode : v.node ∈ before.map (·.node)
  · exact .inr ⟨_, .repeated hweight hnode⟩
  rcases Nat.lt_or_ge (before.weight + v.weight.toNat) Amount.bound with hfits | hfull
  · exact .inl (admissible_concat_iff.mpr ⟨h, hweight, hnode, hfits⟩)
  · exact .inr ⟨_, .overflowing hweight hnode hfull⟩

/-- A snapshot is admissible, or there is a first validator that is refused. -/
theorem admissible_or_firstRefused (snapshot : Snapshot) :
    snapshot.Admissible ∨ ∃ e, snapshot.FirstRefused e := by
  -- on prefixes: who is refused first in one is refused first however the snapshot goes on
  induction snapshot using List.reverseRecOn with
  | nil => exact .inl admissible_nil
  | append_singleton seen v ih =>
    obtain hseen | ⟨e, before, w, after, rfl, hbefore, hw⟩ := ih
    · obtain hconcat | ⟨e, hv⟩ := hseen.concat_or_refused v
      · exact .inl hconcat
      · exact .inr ⟨e, seen, v, [], rfl, hseen, hv⟩
    · exact .inr ⟨e, before, w, after ++ [v], by simp, hbefore, hw⟩

end Snapshot

open Snapshot (Admissible Refused FirstRefused)

namespace ValidatorSet

variable {s s' : ValidatorSet}

/-! ## Adding validators one after the other -/

/-- The set is consistent and has the validators of a snapshot in their order, without transactions. -/
structure MadeOf (s : ValidatorSet) (snapshot : Snapshot) : Prop where
  consistent : s.Consistent
  list_eq : s.list = snapshot
  tx_eq : ∀ r ∈ s.records, r.tx = none

/-- The set with one more validator of a snapshot. -/
def place (s : ValidatorSet) (v : Validator) : Except ValidatorError ValidatorSet :=
  (s.add v.node v.key none v.weight).map (·.set)

theorem map_node_list (s : ValidatorSet) : s.list.map (·.node) = s.records.map (·.node) := by
  rw [list, List.map_map]
  rfl

theorem ofSnapshot_eq_foldlM (snapshot : Snapshot) :
    ofSnapshot snapshot = snapshot.foldlM place empty := rfl

namespace MadeOf

theorem empty : MadeOf .empty [] := ⟨.empty, rfl, nofun⟩

theorem total_eq (h : s.MadeOf before) : s.totalWeight.toNat = before.weight := by
  rw [h.consistent.total_eq, h.list_eq]

theorem contains_iff (h : s.MadeOf before) {node : NodeId} :
    s.positions.contains node ↔ node ∈ before.map (·.node) := by
  rw [← h.list_eq, map_node_list, ← h.consistent.keys_perm.mem_iff, Table.mem_keys_iff,
    Table.contains_iff]

/-- A validator that is refused is the error of adding it. -/
theorem place_of_refused (h : s.MadeOf before) (hv : Refused before v e) :
    s.place v = .error e := by
  rw [place, Outcome.map_eq_error_iff, add]
  cases hv with
  | weightless hweight => rw [if_pos hweight]
  | repeated hweight hnode => rw [if_neg hweight, if_pos (h.contains_iff.mpr hnode)]
  | overflowing hweight hnode hfull =>
    have hnone : Amount.add? s.totalWeight v.weight = none :=
      Amount.add?_eq_none_iff.mpr (h.total_eq.symm ▸ hfull)
    rw [if_neg hweight, if_neg (mt h.contains_iff.mp hnode), hnone, ← h.total_eq,
      UInt64.ofNat_toNat]

/-- One that is not is added behind the others. -/
theorem place (h : s.MadeOf before) (hadmissible : Admissible (before ++ [v])) :
    ∃ s', s.place v = .ok s' ∧ s'.MadeOf (before ++ [v]) := by
  obtain ⟨-, hweight, hnode, hfits⟩ := Snapshot.admissible_concat_iff.mp hadmissible
  rw [← h.total_eq] at hfits
  have hnew : s.positions.get? v.node = none :=
    Table.contains_eq_false_iff.mp (Bool.eq_false_iff.mpr (mt h.contains_iff.mp hnode))
  have htotal : Amount.add? s.totalWeight v.weight = some (s.totalWeight + v.weight) :=
    if_pos hfits
  refine ⟨_, ?_, h.consistent.append (r := ⟨v, none, s.records.length⟩) hnew rfl
    (Amount.add?_eq_some_iff.mp htotal), ?_, ?_⟩
  · rw [ValidatorSet.place, add, if_neg hweight, if_neg (mt h.contains_iff.mp hnode), htotal]
    rfl
  · rw [← h.list_eq, list, List.map_append]
    rfl
  · intro r hr
    rcases List.mem_append.mp hr with hr | hr
    · exact h.tx_eq r hr
    · cases List.mem_singleton.mp hr
      rfl

end MadeOf

/-- A set can be made of an admissible snapshot. -/
theorem ofSnapshot_of_admissible (h : snapshot.Admissible) :
    ∃ s, ofSnapshot snapshot = .ok s ∧ s.MadeOf snapshot := by
  induction snapshot using List.reverseRecOn with
  | nil => exact ⟨empty, rfl, .empty⟩
  | append_singleton before v ih =>
    obtain ⟨s, hs, hmade⟩ := ih h.of_append
    obtain ⟨s', hplace, hmade'⟩ := hmade.place h
    refine ⟨s', ?_, hmade'⟩
    rw [ofSnapshot_eq_foldlM, List.foldlM_append, ← ofSnapshot_eq_foldlM, hs]
    change [v].foldlM ValidatorSet.place s = .ok s'
    rw [List.foldlM_cons, hplace]
    rfl

theorem ofSnapshot_of_firstRefused (h : snapshot.FirstRefused e) : ofSnapshot snapshot = .error e := by
  obtain ⟨before, v, after, rfl, hbefore, hv⟩ := h
  obtain ⟨s, hs, hmade⟩ := ofSnapshot_of_admissible hbefore
  exact Outcome.foldlM_eq_error_iff.mpr ⟨before, v, after, s, rfl, hs, hmade.place_of_refused hv⟩

/-- A set is made of an admissible snapshot only, and then of all of it. -/
theorem madeOf_of_ofSnapshot (h : ofSnapshot snapshot = .ok s) :
    snapshot.Admissible ∧ s.MadeOf snapshot := by
  obtain hadmissible | ⟨e, hrefused⟩ := snapshot.admissible_or_firstRefused
  · obtain ⟨s', hs', hmade⟩ := ofSnapshot_of_admissible hadmissible
    rw [h] at hs'
    cases hs'
    exact ⟨hadmissible, hmade⟩
  · rw [ofSnapshot_of_firstRefused hrefused] at h
    cases h

/-- The error is that of the first validator that is refused. -/
theorem ofSnapshot_eq_error_iff : ofSnapshot snapshot = .error e ↔ snapshot.FirstRefused e := by
  refine ⟨fun h => ?_, ofSnapshot_of_firstRefused⟩
  obtain hadmissible | ⟨e', hrefused⟩ := snapshot.admissible_or_firstRefused
  · obtain ⟨s, hs, -⟩ := ofSnapshot_of_admissible hadmissible
    rw [hs] at h
    cases h
  · rw [ofSnapshot_of_firstRefused hrefused] at h
    cases h
    exact hrefused

/-! ## Sets with one list -/

/-- A set shows what another one does: the same validators in the same slots, and the same total. Its
records differ from the other's in that they know no transactions. -/
structure Rebuilds (s' s : ValidatorSet) : Prop where
  list_eq : s'.list = s.list
  total_eq : s'.totalWeight = s.totalWeight
  slot_eq : ∀ node, s'.positions.get? node = s.positions.get? node
  record_eq : ∀ node, s'.record? node = (s.record? node).map ({ · with tx := none })
  get_eq : ∀ node, s'.get? node = s.get? node
  weight_eq : ∀ node, s'.weight node = s.weight node
  contains_eq : ∀ node, s'.contains node = s.contains node

theorem Consistent.slot_eq (h : s.Consistent) (h' : s'.Consistent) (hlist : s'.list = s.list)
    (node : NodeId) : s'.positions.get? node = s.positions.get? node := by
  have hnodes : s'.records.map (·.node) = s.records.map (·.node) := by
    rw [← map_node_list, ← map_node_list, hlist]
  have hstands : ∀ {t : ValidatorSet} {i : Nat}, t.Consistent →
      (t.positions.get? node = some i ↔ (t.records.map (·.node))[i]? = some node) := by
    intro t i ht
    rw [ht.lookup_iff, List.getElem?_map, Option.map_eq_some_iff]
  apply Option.ext
  intro i
  rw [hstands h', hstands h, hnodes]

/-- What is made of the list of a consistent set has its records, without their transactions. -/
theorem MadeOf.records_eq (h' : s'.MadeOf s.list) (h : s.Consistent) :
    s'.records = s.records.map ({ · with tx := none }) := by
  apply List.ext_getElem?
  intro i
  have hi := congrArg (·[i]?) h'.list_eq
  simp only [list, List.getElem?_map] at hi
  rw [List.getElem?_map]
  cases hr' : s'.records[i]? with
  | none =>
    rw [hr', Option.map_none, eq_comm, Option.map_eq_none_iff] at hi
    rw [hi, Option.map_none]
  | some r' =>
    rw [hr', Option.map_some, eq_comm, Option.map_eq_some_iff] at hi
    obtain ⟨r, hr, hvalidator⟩ := hi
    have hposition : r'.position = r.position :=
      (h'.consistent.position_eq hr').trans (h.position_eq hr).symm
    have htx := h'.tx_eq r' (List.mem_of_getElem? hr')
    rw [hr, Option.map_some, Option.some_inj]
    cases r'; cases r
    cases hvalidator; cases hposition; cases htx
    rfl

/-- So it answers as the set does. -/
theorem MadeOf.rebuilds (h' : s'.MadeOf s.list) (h : s.Consistent) : s'.Rebuilds s := by
  have hslot := h.slot_eq h'.consistent h'.list_eq
  have hrecord : ∀ node, s'.record? node = (s.record? node).map ({ · with tx := none }) := by
    intro node
    simp only [record?, hslot, h'.records_eq h, List.getElem?_map, Option.map_bind]
    rfl
  refine ⟨h'.list_eq, ?_, hslot, hrecord, fun node => ?_, fun node => ?_, fun node => ?_⟩
  · apply UInt64.toNat_inj.mp
    rw [h'.total_eq, h.total_eq]
  · rw [get?, get?, hrecord, Option.map_map]
    rfl
  · rw [weight, weight, hrecord]
    cases s.record? node <;> rfl
  · rw [contains, contains, Table.contains, Table.contains, hslot]

/-- The validators of a set that has gone through any requests can be put into a set again. -/
theorem admissible_list_run (changes : List StakeChange) : (empty.run changes).list.Admissible := by
  have h : Holds (empty.run changes) (StakeMap.run changes) := .run changes
  refine ⟨fun v hv => h.weight_ne_zero_of_mem_list (StakeMap.run_wellFormed changes) hv,
    h.mirrors.nodup_list, ?_⟩
  rw [← h.consistent.total_eq]
  exact Amount.toNat_lt_bound _

/-- **A list of validators makes a set unless one of them is refused.** A set is built from a snapshot
exactly where all weights are positive, the nodes are distinct and the weights add up to a word, and it
lists the snapshot in its order; else the first validator that cannot join those before it is refused, with
the error of that validator. So a set that has gone through any requests is built again from its own list,
with the same total, slots and look-ups. -/
theorem rebuilds_of_list :
    (∀ snapshot, ((∃ s, ofSnapshot snapshot = .ok s) ↔ snapshot.Admissible) ∧
      (∀ e, ofSnapshot snapshot = .error e ↔ snapshot.FirstRefused e) ∧
      ∀ s, ofSnapshot snapshot = .ok s → s.list = snapshot) ∧
    ∀ changes, ∃ s, ofSnapshot (empty.run changes).list = .ok s ∧
      s.Rebuilds (empty.run changes) := by
  refine ⟨fun snapshot => ⟨⟨?_, ?_⟩, fun e => ofSnapshot_eq_error_iff, ?_⟩, fun changes => ?_⟩
  · rintro ⟨s, hs⟩
    exact (madeOf_of_ofSnapshot hs).1
  · intro hadmissible
    obtain ⟨s, hs, -⟩ := ofSnapshot_of_admissible hadmissible
    exact ⟨s, hs⟩
  · intro s hs
    exact (madeOf_of_ofSnapshot hs).2.list_eq
  · obtain ⟨s, hs, hmade⟩ := ofSnapshot_of_admissible (admissible_list_run changes)
    exact ⟨s, hs, hmade.rebuilds (Holds.run changes).consistent⟩

end ValidatorSet

end StakeGuard
