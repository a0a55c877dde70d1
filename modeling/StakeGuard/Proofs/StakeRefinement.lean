import StakeGuard.Proofs.Consistent

/-!
# Validator sets stand for stake maps

A validator set that has gone through any requests answers the next one, and every question, as the
stake map that has gone through the same requests. The relation that carries the argument (`Holds`) is
consistency together with one fact: the records, slots apart, are the entries of the map in some order.
Each operation keeps it, and both sides refuse alike (`Holds.apply`). Main statement: `run_mirrors`.
-/

open scoped List

namespace StakeGuard

open Outcome
open ValidatorRecord (entry)

namespace ValidatorSet

/-- A validator set holds the entries of a map in its slots. -/
structure Holds (s : ValidatorSet) (m : StakeMap) : Prop where
  consistent : s.Consistent
  entries : s.records.map entry ~ m.entries

namespace Holds

variable {s : ValidatorSet} {m : StakeMap}

theorem empty : Holds ValidatorSet.empty .empty := ⟨.empty, .nil⟩

/-! ## What both sides know of a node -/

theorem total_eq (h : Holds s m) : s.totalWeight.toNat = m.total := by
  rw [h.consistent.total_eq, weight_list, StakeMap.total_eq_sum, Table.sum]
  exact (h.entries.map _).sum_nat

theorem ofNat_total (h : Holds s m) : UInt64.ofNat m.total = s.totalWeight := by
  rw [← h.total_eq, UInt64.ofNat_toNat]

/-- A member of the map is a record of the set. -/
theorem get?_eq_some_iff (h : Holds s m) {node : NodeId} {member : Member} :
    m.get? node = some member ↔ ∃ r ∈ s.records, r.entry = (node, member) := by
  rw [← Table.mem_entries_iff, ← h.entries.mem_iff, List.mem_map]

theorem get?_eq_none_iff (h : Holds s m) {node : NodeId} :
    m.get? node = none ↔ s.positions.get? node = none := by
  rw [Option.eq_none_iff_forall_ne_some, Option.eq_none_iff_forall_ne_some]
  constructor
  · intro hm p hp
    obtain ⟨r, hr, hnode⟩ := h.consistent.lookup_iff.mp hp
    exact hm ⟨r.key, r.tx, r.weight⟩
      (h.get?_eq_some_iff.mpr ⟨r, List.mem_of_getElem? hr, by rw [← hnode]; rfl⟩)
  · intro hs member hm
    obtain ⟨r, hr, hentry⟩ := h.get?_eq_some_iff.mp hm
    obtain ⟨p, hp⟩ := List.mem_iff_getElem?.mp hr
    exact hs p (h.consistent.lookup_iff.mpr ⟨r, hp, congrArg Prod.fst hentry⟩)

/-- A node of the map has a slot, which is found, and a record that says the same of it. -/
theorem slot (h : Holds s m) {node : NodeId} {member : Member} (hm : m.get? node = some member) :
    ∃ (p : Nat) (r : ValidatorRecord), s.records[p]? = some r ∧ s.resolve node = .ok (p, r) ∧
      r.entry = (node, member) := by
  obtain ⟨r, hr, hentry⟩ := h.get?_eq_some_iff.mp hm
  obtain ⟨p, hp⟩ := List.mem_iff_getElem?.mp hr
  have hnode : r.node = node := congrArg Prod.fst hentry
  exact ⟨p, r, hp, hnode ▸ h.consistent.resolve_eq hp, hentry⟩

/-! ## Changes of both sides -/

/-- Reweighing a record is writing its member anew. -/
theorem reweigh (h : Holds s m) {p : Nat} {r : ValidatorRecord} {node : NodeId} {member : Member}
    (hp : s.records[p]? = some r) (hentry : r.entry = (node, member)) {weight total : UInt64}
    (htotal : total.toNat + r.weight.toNat = s.totalWeight.toNat + weight.toNat) :
    Holds (s.reweigh p r weight total) (m.insert node { member with weight }) := by
  refine ⟨h.consistent.reweigh hp htotal, ?_⟩
  have hm : m.get? node = some member :=
    h.get?_eq_some_iff.mpr ⟨r, List.mem_of_getElem? hp, hentry⟩
  have hnew : entry { r with weight } = (node, { member with weight }) := by
    cases hentry; rfl
  -- the old entry, which neither side has any more, is put in front of both
  refine List.Perm.cons_inv (a := r.entry) ?_
  calc
    r.entry :: (s.reweigh p r weight total).records.map entry
    _ ~ entry { r with weight } :: s.records.map entry := entries_reweigh hp weight total
    _ ~ entry { r with weight } :: m.entries := h.entries.cons _
    _ ~ entry { r with weight } :: r.entry :: (m.erase node).entries := by
      rw [hentry]; exact (Table.entries_perm_cons_erase hm).cons _
    _ ~ r.entry :: entry { r with weight } :: (m.erase node).entries := .swap _ _ _
    _ ~ r.entry :: (m.insert node { member with weight }).entries := by rw [hnew]; exact .refl _

/-- Vacating a record's slot is erasing its member. -/
theorem vacate (h : Holds s m) {p : Nat} {r : ValidatorRecord} {node : NodeId} {member : Member}
    (hp : s.records[p]? = some r) (hentry : r.entry = (node, member)) :
    Holds (s.vacate p r) (m.erase node) := by
  refine ⟨h.consistent.vacate hp, ?_⟩
  have hm : m.get? node = some member :=
    h.get?_eq_some_iff.mpr ⟨r, List.mem_of_getElem? hp, hentry⟩
  refine List.Perm.cons_inv (a := r.entry) ?_
  calc
    r.entry :: (s.vacate p r).records.map entry
    _ ~ s.records.map entry := entries_vacate hp
    _ ~ m.entries := h.entries
    _ ~ r.entry :: (m.erase node).entries := by
      rw [hentry]; exact Table.entries_perm_cons_erase hm

/-! ## Requests -/

/-- An update that leaves a set holding a map and shows no removed validator. -/
def Becomes (u : Update) (m : StakeMap) : Prop := Holds u.set m ∧ u.removed = none

/-- Both add a validator, or refuse it for one reason. -/
theorem add (h : Holds s m) (node : NodeId) (key : Option PublicKey) (tx : Option TxId)
    (weight : UInt64) : Agree Becomes (s.add node key tx weight) (m.add node ⟨key, tx, weight⟩) := by
  simp only [ValidatorSet.add, StakeMap.add]
  by_cases hweight : weight = 0
  · rw [if_pos hweight, if_pos hweight]
    exact .error _
  rw [if_neg hweight, if_neg hweight]
  cases hm : m.get? node with
  | some member =>
    have hpositions : s.positions.contains node = true := by
      rw [← Bool.not_eq_false, Table.contains_eq_false_iff, ← h.get?_eq_none_iff, hm]
      exact Option.some_ne_none member
    rw [if_pos hpositions, if_pos (Table.contains_iff.mpr ⟨member, hm⟩)]
    exact .error _
  | none =>
    have hpositions := h.get?_eq_none_iff.mp hm
    rw [if_neg (by rw [Table.contains_eq_false_iff.mpr hpositions]; exact Bool.false_ne_true),
      if_neg (by rw [Table.contains_eq_false_iff.mpr hm]; exact Bool.false_ne_true)]
    cases hadd : Amount.add? s.totalWeight weight with
    | none =>
      have hbound := Amount.add?_eq_none_iff.mp hadd
      rw [h.total_eq] at hbound
      rw [if_neg (Nat.not_lt.mpr hbound), h.ofNat_total]
      exact .error _
    | some total =>
      have htotal := Amount.add?_eq_some_iff.mp hadd
      have hword := Amount.toNat_lt_bound total
      rw [if_pos (by rw [← h.total_eq, ← htotal]; exact hword)]
      refine .ok ⟨⟨h.consistent.append hpositions rfl htotal, ?_⟩, rfl⟩
      rw [Table.entries_insert, Table.entries_erase_of_none hm, List.map_append]
      exact (@List.perm_append_comm _ _ [_]).trans (h.entries.cons _)

/-- Both remove a validator and show the same one, or refuse alike. -/
theorem remove (h : Holds s m) (node : NodeId) :
    Agree (fun u r => Holds u.set r.1 ∧ u.removed = some r.2) (s.remove node) (m.remove node) := by
  simp only [ValidatorSet.remove, StakeMap.remove]
  cases hm : m.get? node with
  | none =>
    rw [Consistent.resolve_eq_error s (h.get?_eq_none_iff.mp hm)]
    exact .error _
  | some member =>
    obtain ⟨p, r, hp, hresolve, hentry⟩ := h.slot hm
    rw [hresolve]
    refine .ok ⟨h.vacate hp hentry, ?_⟩
    cases hentry; rfl

theorem setWeight (h : Holds s m) (node : NodeId) (weight : UInt64) :
    Agree Becomes (s.setWeight node weight) (m.setWeight node weight) := by
  simp only [ValidatorSet.setWeight, StakeMap.setWeight]
  cases hm : m.get? node with
  | none =>
    rw [Consistent.resolve_eq_error s (h.get?_eq_none_iff.mp hm)]
    exact .error _
  | some member =>
    obtain ⟨p, r, hp, hresolve, hentry⟩ := h.slot hm
    simp only [hresolve]
    by_cases hweight : weight = 0
    · rw [if_pos hweight, if_pos hweight]
      exact .error _
    rw [if_neg hweight, if_neg hweight, StakeMap.reweigh]
    have hmember : member.weight = r.weight := by cases hentry; rfl
    have hle := h.consistent.weight_le_total (List.mem_of_getElem? hp)
    -- the set takes the old weight off its total where the map sums up the other members
    have hothers : (s.totalWeight - r.weight).toNat = StakeMap.total (m.erase node) := by
      have hsum := StakeMap.total_erase_add hm
      rw [hmember] at hsum
      rw [UInt64.toNat_sub_of_le _ _ (UInt64.le_iff_toNat_le.mpr hle), h.total_eq]
      omega
    cases hadd : Amount.add? (s.totalWeight - r.weight) weight with
    | none =>
      have hbound := Amount.add?_eq_none_iff.mp hadd
      rw [hothers] at hbound
      simp only [if_neg (Nat.not_lt.mpr hbound)]
      rw [← hothers, UInt64.ofNat_toNat]
      exact .error _
    | some total =>
      have htotal := Amount.add?_eq_some_iff.mp hadd
      have hword := Amount.toNat_lt_bound total
      have hsub := UInt64.toNat_sub_of_le _ _ (UInt64.le_iff_toNat_le.mpr hle)
      simp only [if_pos (show StakeMap.total (m.erase node) + weight.toNat < Amount.bound by
        rw [← hothers, ← htotal]; exact hword)]
      exact .ok ⟨h.reweigh hp hentry (by omega), rfl⟩

theorem addWeight (h : Holds s m) (node : NodeId) (delta : UInt64) :
    Agree Becomes (s.addWeight node delta) (m.addWeight node delta) := by
  simp only [ValidatorSet.addWeight, StakeMap.addWeight]
  cases hm : m.get? node with
  | none =>
    rw [Consistent.resolve_eq_error s (h.get?_eq_none_iff.mp hm)]
    exact .error _
  | some member =>
    obtain ⟨p, r, hp, hresolve, hentry⟩ := h.slot hm
    have hmember : member.weight = r.weight := by cases hentry; rfl
    simp only [hresolve, hmember]
    by_cases hdelta : delta = 0
    · rw [if_pos hdelta, if_pos hdelta]
      exact .ok ⟨h, rfl⟩
    rw [if_neg hdelta, if_neg hdelta]
    cases hown : Amount.add? r.weight delta with
    | none =>
      rw [if_pos (Amount.add?_eq_none_iff.mp hown)]
      exact .error _
    | some weight =>
      have hweight := Amount.add?_eq_some_iff.mp hown
      have hword := Amount.toNat_lt_bound weight
      rw [if_neg (by omega)]
      cases hadd : Amount.add? s.totalWeight delta with
      | none =>
        have hbound := Amount.add?_eq_none_iff.mp hadd
        rw [h.total_eq] at hbound
        simp only [if_pos hbound, h.ofNat_total]
        exact .error _
      | some total =>
        have htotal := Amount.add?_eq_some_iff.mp hadd
        have hfits := Amount.toNat_lt_bound total
        have hsum : r.weight + delta = weight := UInt64.toNat_inj.mp
          ((Amount.toNat_add_of_lt (by omega)).trans hweight.symm)
        rw [if_neg (by rw [← h.total_eq]; omega), hsum]
        exact .ok ⟨h.reweigh hp hentry (by omega), rfl⟩

/-- Both lower a weight, or refuse alike; where nothing is left both remove the validator. -/
theorem removeWeight (h : Holds s m) (node : NodeId) (delta : UInt64) :
    Agree Becomes (s.removeWeight node delta) (m.removeWeight node delta) := by
  simp only [ValidatorSet.removeWeight, StakeMap.removeWeight]
  cases hm : m.get? node with
  | none =>
    rw [Consistent.resolve_eq_error s (h.get?_eq_none_iff.mp hm)]
    exact .error _
  | some member =>
    obtain ⟨p, r, hp, hresolve, hentry⟩ := h.slot hm
    have hmember : member.weight = r.weight := by cases hentry; rfl
    simp only [hresolve, hmember, UInt64.lt_iff_toNat_lt]
    by_cases hdelta : delta = 0
    · rw [if_pos hdelta, if_pos hdelta]
      exact .ok ⟨h, rfl⟩
    rw [if_neg hdelta, if_neg hdelta]
    by_cases hless : r.weight.toNat < delta.toNat
    · rw [if_pos hless, if_pos hless]
      exact .error _
    rw [if_neg hless, if_neg hless]
    by_cases hall : r.weight = delta
    · rw [if_pos hall, if_pos hall, ValidatorSet.remove, hresolve]
      exact .ok ⟨h.vacate hp hentry, rfl⟩
    · rw [if_neg hall, if_neg hall]
      have hle := h.consistent.weight_le_total (List.mem_of_getElem? hp)
      have hsub := UInt64.toNat_sub_of_le r.weight delta
        (UInt64.le_iff_toNat_le.mpr (Nat.le_of_not_lt hless))
      have htotal := UInt64.toNat_sub_of_le s.totalWeight delta
        (UInt64.le_iff_toNat_le.mpr (by omega))
      exact .ok ⟨h.reweigh hp hentry (by omega), rfl⟩

/-- A request is refused by both sides for one reason, or granted by both with the same answer. -/
theorem apply (h : Holds s m) (change : StakeChange) :
    Agree (fun u r => Holds u.set r.1 ∧ u.removed = r.2) (s.apply change) (m.apply change) := by
  cases change with
  | add node key tx weight => exact (h.add node key tx weight).map_right id
  | remove node => exact (h.remove node).map_right id
  | setWeight node weight => exact (h.setWeight node weight).map_right id
  | addWeight node delta => exact (h.addWeight node delta).map_right id
  | removeWeight node delta => exact (h.removeWeight node delta).map_right id

/-- A request, granted or refused, keeps a set standing for its map. -/
theorem step (h : Holds s m) (change : StakeChange) : Holds (s.step change) (m.step change) := by
  unfold ValidatorSet.step StakeMap.step
  have hagree := h.apply change
  generalize s.apply change = x at hagree ⊢
  generalize m.apply change = y at hagree ⊢
  cases hagree with
  | error e => exact h
  | ok hr => exact hr.1

/-- Both sides stay in step through any list of requests. -/
theorem run (changes : List StakeChange) :
    Holds (ValidatorSet.empty.run changes) (StakeMap.run changes) := by
  have hrun : ∀ {s : ValidatorSet} {m : StakeMap}, Holds s m →
      Holds (s.run changes) (changes.foldl StakeMap.step m) := by
    induction changes with
    | nil => exact id
    | cons change rest ih => exact fun h => ih (h.step change)
  exact hrun .empty

end Holds

/-! ## Questions -/

/-- A validator set answers every question as a map does, and its own parts are in order. -/
structure Mirrors (s : ValidatorSet) (m : StakeMap) : Prop where
  record : ∀ node, (s.record? node).map entry = (m.get? node).map (node, ·)
  get : ∀ node, s.get? node = (m.get? node).map (·.validator node)
  weight : ∀ node, s.weight node = ((m.get? node).map (·.weight)).getD 0
  contains : ∀ node, s.contains node = m.contains node
  size : s.size = m.size
  total : s.totalWeight.toNat = m.total
  nodup_list : (s.list.map (·.node)).Nodup
  mem_list : ∀ v, v ∈ s.list ↔ ∃ member, m.get? v.node = some member ∧ v = member.validator v.node
  slots : ∀ i r, s.records[i]? = some r → r.position = i ∧ s.positions.get? r.node = some i
  check : s.check = .ok ()
  /-- No more is ever taken off the total than the weight of one record. -/
  weight_le_total : ∀ r ∈ s.records, r.weight ≤ s.totalWeight

namespace Holds

variable {s : ValidatorSet} {m : StakeMap}

theorem record?_map (h : Holds s m) (node : NodeId) :
    (s.record? node).map entry = (m.get? node).map (node, ·) := by
  apply Option.ext
  intro e
  simp only [Option.map_eq_some_iff, h.consistent.record?_eq_some_iff, h.get?_eq_some_iff]
  constructor
  · rintro ⟨r, ⟨hr, hnode⟩, rfl⟩
    exact ⟨⟨r.key, r.tx, r.weight⟩, ⟨r, hr, by rw [← hnode]; rfl⟩, by rw [← hnode]; rfl⟩
  · rintro ⟨member, ⟨r, hr, hentry⟩, rfl⟩
    exact ⟨r, ⟨hr, congrArg Prod.fst hentry⟩, hentry⟩

/-- The listed validators are the members of the map. -/
theorem mem_list_iff (h : Holds s m) (v : Validator) :
    v ∈ s.list ↔ ∃ member, m.get? v.node = some member ∧ v = member.validator v.node := by
  rw [list, List.mem_map]
  simp only [h.get?_eq_some_iff]
  constructor
  · rintro ⟨r, hr, rfl⟩
    exact ⟨⟨r.key, r.tx, r.weight⟩, ⟨r, hr, rfl⟩, rfl⟩
  · rintro ⟨member, ⟨r, hr, hentry⟩, hv⟩
    obtain ⟨hnode, rfl⟩ := Prod.mk.inj hentry
    exact ⟨r, hr, by rw [hv, ← hnode]; rfl⟩

theorem weight_ne_zero_of_mem_list (h : Holds s m) (hm : m.WellFormed) {v : Validator}
    (hv : v ∈ s.list) : v.weight ≠ 0 := by
  obtain ⟨member, hget, heq⟩ := (h.mem_list_iff v).mp hv
  rw [heq]
  exact hm.weight_ne_zero hget

/-- A set that stands for a map answers every question as the map. -/
theorem mirrors (h : Holds s m) : s.Mirrors m where
  record := h.record?_map
  get node := by
    have hrecord := congrArg (Option.map fun e : NodeId × Member => e.2.validator e.1)
      (h.record?_map node)
    simp only [Option.map_map] at hrecord
    exact hrecord
  weight node := by
    have hrecord := congrArg (Option.map fun e : NodeId × Member => e.2.weight)
      (h.record?_map node)
    simp only [Option.map_map] at hrecord
    have hweight : s.weight node = ((s.record? node).map (·.weight)).getD 0 := by
      unfold ValidatorSet.weight
      cases s.record? node <;> rfl
    rw [hweight]
    exact congrArg (Option.getD · 0) hrecord
  contains node := by
    rw [Bool.eq_iff_iff, ← Bool.not_eq_false, ← Bool.not_eq_false, ValidatorSet.contains,
      Table.contains_eq_false_iff, Table.contains_eq_false_iff, h.get?_eq_none_iff]
  size := by
    have hlength := h.entries.length_eq
    rwa [List.length_map] at hlength
  total := h.total_eq
  nodup_list := by
    rw [list, List.map_map]
    exact nodup_nodes_of_lookup fun i r hr => h.consistent.lookup_iff.mpr ⟨r, hr, rfl⟩
  mem_list := h.mem_list_iff
  slots i r hr := ⟨h.consistent.position_eq hr, h.consistent.lookup_iff.mpr ⟨r, hr, rfl⟩⟩
  check := check_eq_ok_iff.mpr h.consistent
  weight_le_total r hr := UInt64.le_iff_toNat_le.mpr (h.consistent.weight_le_total hr)

end Holds

/-- **A validator set is a finite map.** After any requests the set answers every question as the map
does, and refuses or grants the next request as the map does, with the same error or the same removed
validator. The map's weights are positive and add up to a word; a refused request leaves the set as it
is, and none is ever refused for a corrupted slot. -/
theorem run_mirrors (changes : List StakeChange) :
    let s := ValidatorSet.empty.run changes
    let m := StakeMap.run changes
    m.WellFormed ∧ s.Mirrors m ∧
      ∀ change, (s.apply change).map (·.removed) = (m.apply change).map (·.2) ∧
        ∀ e, s.apply change = .error e →
          s.step change = s ∧ ∀ node indexed stored, e ≠ .corruptPosition node indexed stored := by
  intro s m
  have h : Holds s m := .run changes
  refine ⟨StakeMap.run_wellFormed changes, h.mirrors, fun change => ?_⟩
  have hanswer := (h.apply change).map_eq (f := (·.removed)) (g := (·.2)) And.right
  refine ⟨hanswer, fun e he => ⟨by rw [ValidatorSet.step, he], ?_⟩⟩
  rw [he] at hanswer
  exact StakeMap.ne_corruptPosition_of_apply (Outcome.map_eq_error_iff.mp hanswer.symm)

end ValidatorSet

end StakeGuard
