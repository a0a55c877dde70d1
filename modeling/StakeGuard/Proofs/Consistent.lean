import Mathlib.Algebra.Order.BigOperators.Group.List
import Mathlib.Algebra.Order.Ring.Nat
import Mathlib.Data.List.Nodup
import Mathlib.Data.List.Perm.Basic
import Mathlib.Data.List.Perm.Subperm
import StakeGuard.Proofs.Outcome
import StakeGuard.Proofs.StakeMap

/-!
# Consistent validator sets

The representation invariant of a validator set: every record knows its slot, the table finds exactly
the stored nodes in their slots, and the cached total is the exact sum. Each way of changing the
parts keeps it (`Consistent.append`, `Consistent.reweigh`, `Consistent.vacate`); a set that has it
resolves every node that the table knows (`Consistent.resolve_eq`), and a scan finds nothing exactly
in those sets (`check_eq_ok_iff`).
-/

open scoped List

namespace StakeGuard

theorem getElem?_concat_eq_some_iff {α : Type} {xs : List α} {a b : α} {i : Nat} :
    (xs ++ [a])[i]? = some b ↔ xs[i]? = some b ∨ (i = xs.length ∧ a = b) := by
  rw [List.getElem?_append]
  split
  · next h => simp [Nat.ne_of_lt h]
  · next h =>
    have hnone : xs[i]? = none := List.getElem?_eq_none (Nat.le_of_not_lt h)
    rw [hnone, List.getElem?_singleton]
    split
    · next hi => simp [show i = xs.length by omega]
    · next hi => simp [show i ≠ xs.length by omega]

theorem getElem?_set_eq_some_iff {α : Type} {xs : List α} {a b : α} {i p : Nat} :
    (xs.set p a)[i]? = some b ↔ (i = p ∧ p < xs.length ∧ a = b) ∨ (i ≠ p ∧ xs[i]? = some b) := by
  rw [List.getElem?_set]
  by_cases hi : p = i
  · subst hi; simp
  · simp [hi, Ne.symm hi]

theorem swapRemove_concat {α : Type} (init : List α) (last : α) (i : Nat) :
    swapRemove (init ++ [last]) i = init.set i last := by
  simp only [swapRemove, List.getLast?_concat]
  rcases Nat.lt_or_ge i init.length with h | h
  · rw [List.set_append_left _ _ h, List.dropLast_concat]
  · rw [List.set_append_right _ _ h, List.set_eq_of_length_le h]
    cases i - init.length <;> simp

namespace ValidatorRecord

/-- What a record says of its node, the slot apart. -/
def entry (r : ValidatorRecord) : NodeId × Member := (r.node, ⟨r.key, r.tx, r.weight⟩)

end ValidatorRecord

open ValidatorRecord (entry)

namespace ValidatorSet

/-- The parts of a set agree: each record stands in the slot it knows, the table finds exactly the
stored nodes, each in its slot, and the total is the sum of the weights. -/
structure Consistent (s : ValidatorSet) : Prop where
  position_eq : ∀ {i} {r : ValidatorRecord}, s.records[i]? = some r → r.position = i
  lookup_iff : ∀ {node i}, s.positions.get? node = some i ↔
    ∃ r : ValidatorRecord, s.records[i]? = some r ∧ r.node = node
  total_eq : s.totalWeight.toNat = s.list.weight

theorem weight_list (s : ValidatorSet) :
    s.list.weight = ((s.records.map entry).map (·.2.weight.toNat)).sum := by
  rw [Snapshot.weight, Amount.sum_eq_list_sum, list, List.map_map, List.map_map]
  rfl

/-! ## Where records move -/

section Moves

variable {s : ValidatorSet} {p : Nat} {record : ValidatorRecord}

/-- Reweighing replaces one entry by itself with another weight. -/
theorem entries_reweigh (h : s.records[p]? = some record) (weight total : UInt64) :
    (record.entry :: (s.reweigh p record weight total).records.map entry).Perm
      (entry { record with weight } :: s.records.map entry) := by
  obtain ⟨hp, rfl⟩ := List.getElem?_eq_some_iff.mp h
  have hset := (List.set_perm_cons_eraseIdx hp { s.records[p] with weight }).map entry
  have hget := (List.getElem_cons_eraseIdx_perm hp).map entry
  simp only [reweigh]
  exact (hset.cons _).trans ((List.Perm.swap _ _ _).trans (hget.cons _))

/-- The record in a slot is the last one or has it behind it. -/
theorem records_eq_concat (h : s.records[p]? = some record) :
    ∃ init last, s.records = init ++ [last] ∧
      (p < init.length ∨ p = init.length ∧ record = last) := by
  obtain ⟨hp, hget⟩ := List.getElem?_eq_some_iff.mp h
  obtain ⟨init, last, hrecords⟩ : ∃ init last, s.records = init ++ [last] :=
    ⟨_, _, (List.dropLast_concat_getLast (List.ne_nil_of_length_pos (Nat.zero_lt_of_lt hp))).symm⟩
  refine ⟨init, last, hrecords, ?_⟩
  rw [hrecords, getElem?_concat_eq_some_iff] at h
  rcases h with hinner | ⟨hlen, hlast⟩
  · exact .inl (List.getElem?_eq_some_iff.mp hinner).1
  · exact .inr ⟨hlen, hlast.symm⟩

theorem records_vacate {init : List ValidatorRecord} {last : ValidatorRecord}
    (hrecords : s.records = init ++ [last]) :
    (s.vacate p record).records = init.set p { last with position := p } := by
  simp only [vacate, hrecords, swapRemove_concat]
  rcases Nat.lt_or_ge p init.length with h | h
  · simp [List.getElem?_set_self h]
  · simp [List.set_eq_of_length_le h, List.getElem?_eq_none h]

theorem positions_vacate {init : List ValidatorRecord} {last : ValidatorRecord}
    (hrecords : s.records = init ++ [last]) :
    (s.vacate p record).positions =
      if p < init.length then (s.positions.erase record.node).insert last.node p
      else s.positions.erase record.node := by
  simp only [vacate, hrecords, swapRemove_concat]
  rcases Nat.lt_or_ge p init.length with h | h
  · simp [h]
  · simp [List.set_eq_of_length_le h, Nat.not_lt.mpr h]

theorem totalWeight_vacate :
    (s.vacate p record).totalWeight = s.totalWeight - record.weight := by
  simp only [vacate]
  split <;> rfl

/-- Vacating a slot takes away one entry, though the last record moves. -/
theorem entries_vacate (h : s.records[p]? = some record) :
    (record.entry :: (s.vacate p record).records.map entry).Perm (s.records.map entry) := by
  obtain ⟨init, last, hrecords, hlt | ⟨rfl, rfl⟩⟩ := records_eq_concat h
  · rw [records_vacate hrecords, hrecords, List.map_append]
    rw [hrecords, List.getElem?_append_left hlt] at h
    obtain ⟨_, hrecord⟩ := List.getElem?_eq_some_iff.mp h
    have hset := (List.set_perm_cons_eraseIdx hlt { last with position := p }).map entry
    have hinit := (List.getElem_cons_eraseIdx_perm hlt).map entry
    calc
      record.entry :: (init.set p { last with position := p }).map entry
      _ ~ record.entry :: last.entry :: (init.eraseIdx p).map entry := hset.cons _
      _ ~ last.entry :: record.entry :: (init.eraseIdx p).map entry := .swap _ _ _
      _ ~ last.entry :: init.map entry := by rw [← hrecord]; exact hinit.cons _
      _ ~ init.map entry ++ [last].map entry := @List.perm_append_comm _ [_] _
  · rw [records_vacate hrecords, hrecords, List.map_append, List.set_eq_of_length_le (Nat.le_refl _)]
    exact @List.perm_append_comm _ [_] _

end Moves

/-! ## The invariant -/

namespace Consistent

variable {s : ValidatorSet}

/-- The empty set is consistent. -/
theorem empty : Consistent ValidatorSet.empty where
  position_eq h := by cases h
  lookup_iff := by simp [ValidatorSet.empty]
  total_eq := rfl

/-- A node stands in one slot only. -/
theorem slot_unique (h : s.Consistent) {i j : Nat} {r r' : ValidatorRecord}
    (hr : s.records[i]? = some r) (hr' : s.records[j]? = some r') (hnode : r.node = r'.node) :
    i = j := by
  have hi := h.lookup_iff.mpr ⟨r, hr, hnode⟩
  have hj := h.lookup_iff.mpr ⟨r', hr', rfl⟩
  exact Option.some_inj.mp (hi.symm.trans hj)

/-- A record of a new node can be added behind the others. -/
theorem append (h : s.Consistent) {r : ValidatorRecord} {total : UInt64}
    (hnew : s.positions.get? r.node = none) (hposition : r.position = s.records.length)
    (htotal : total.toNat = s.totalWeight.toNat + r.weight.toNat) :
    Consistent ⟨s.records ++ [r], s.positions.insert r.node s.records.length, total⟩ where
  position_eq hfound := by
    rcases getElem?_concat_eq_some_iff.mp hfound with hold | ⟨rfl, rfl⟩
    · exact h.position_eq hold
    · exact hposition
  lookup_iff {node i} := by
    rw [Table.get?_insert]
    simp only [getElem?_concat_eq_some_iff]
    by_cases hnode : node = r.node
    · subst hnode
      rw [if_pos rfl, Option.some_inj]
      refine ⟨fun hi => ⟨r, .inr ⟨hi.symm, rfl⟩, rfl⟩, ?_⟩
      rintro ⟨found, hold | ⟨hi, -⟩, heq⟩
      · have hget := h.lookup_iff.mpr ⟨found, hold, heq⟩
        rw [hnew] at hget
        cases hget
      · exact hi.symm
    · rw [if_neg hnode, h.lookup_iff]
      constructor
      · rintro ⟨found, hold, heq⟩
        exact ⟨found, .inl hold, heq⟩
      · rintro ⟨found, hold | ⟨-, rfl⟩, heq⟩
        · exact ⟨found, hold, heq⟩
        · exact absurd heq.symm hnode
  total_eq := by
    have hsum := h.total_eq
    rw [weight_list] at hsum ⊢
    simp only [List.map_append, List.sum_append_nat, htotal, hsum]
    simp [entry]

/-- A record can be given another weight if the total changes by as much. -/
theorem reweigh (h : s.Consistent) {p : Nat} {record : ValidatorRecord} {weight total : UInt64}
    (hp : s.records[p]? = some record)
    (htotal : total.toNat + record.weight.toNat = s.totalWeight.toNat + weight.toNat) :
    Consistent (s.reweigh p record weight total) where
  position_eq {i found} hfound := by
    rcases getElem?_set_eq_some_iff.mp hfound with ⟨rfl, -, rfl⟩ | ⟨-, hold⟩
    · exact h.position_eq (r := record) hp
    · exact h.position_eq hold
  lookup_iff {node i} := by
    simp only [ValidatorSet.reweigh, h.lookup_iff, getElem?_set_eq_some_iff]
    constructor
    · rintro ⟨found, hold, hnode⟩
      by_cases hi : i = p
      · subst hi
        rw [hold, Option.some_inj] at hp
        subst hp
        exact ⟨_, .inl ⟨rfl, (List.getElem?_eq_some_iff.mp hold).1, rfl⟩, hnode⟩
      · exact ⟨found, .inr ⟨hi, hold⟩, hnode⟩
    · rintro ⟨found, ⟨rfl, -, rfl⟩ | ⟨-, hold⟩, hnode⟩
      · exact ⟨record, hp, hnode⟩
      · exact ⟨found, hold, hnode⟩
  total_eq := by
    have hsum := h.total_eq
    have hperm := (entries_reweigh hp weight total).map (·.2.weight.toNat)
    have hnat := hperm.sum_nat
    rw [weight_list] at hsum ⊢
    simp only [List.map_cons, List.sum_cons, entry] at hnat hsum ⊢
    have ht : (s.reweigh p record weight total).totalWeight = total := rfl
    rw [ht]
    omega

theorem weight_le_total (h : s.Consistent) {r : ValidatorRecord} (hr : r ∈ s.records) :
    r.weight.toNat ≤ s.totalWeight.toNat := by
  rw [h.total_eq, weight_list, List.map_map]
  exact List.le_sum_of_mem (List.mem_map_of_mem hr)

section Vacate

variable {init : List ValidatorRecord} {last record : ValidatorRecord} {p : Nat}

theorem mem_of_init (hrecords : s.records = init ++ [last]) {j : Nat} {r : ValidatorRecord}
    (hr : init[j]? = some r) : s.records[j]? = some r := by
  rw [hrecords, getElem?_concat_eq_some_iff]
  exact .inl hr

theorem getElem?_last (hrecords : s.records = init ++ [last]) :
    s.records[init.length]? = some last := by
  simp [hrecords]

theorem lookup_concat (h : s.Consistent) (hrecords : s.records = init ++ [last]) {node : NodeId}
    {i : Nat} : s.positions.get? node = some i ↔ ∃ r : ValidatorRecord,
      (init[i]? = some r ∨ (i = init.length ∧ last = r)) ∧ r.node = node := by
  rw [h.lookup_iff, hrecords]
  simp only [getElem?_concat_eq_some_iff]

/-- The table finds the last record in the slot it has moved to. -/
theorem lookup_moved (h : s.Consistent) (hp : s.records[p]? = some record)
    (hrecords : s.records = init ++ [last]) (hlt : p < init.length) {node : NodeId} {i : Nat} :
    ((s.positions.erase record.node).insert last.node p).get? node = some i ↔
      ∃ r : ValidatorRecord, (init.set p { last with position := p })[i]? = some r ∧
        r.node = node := by
  rw [Table.get?_insert, Table.get?_erase]
  simp only [getElem?_set_eq_some_iff]
  -- three kinds of nodes: the one that moves, the one that goes, and those that stay
  by_cases hnode : node = last.node
  · rw [if_pos hnode, Option.some_inj]
    constructor
    · rintro rfl
      exact ⟨_, .inl ⟨rfl, hlt, rfl⟩, hnode.symm⟩
    · rintro ⟨r, ⟨rfl, -, -⟩ | ⟨-, hr⟩, hrnode⟩
      · rfl
      · have heq := h.slot_unique (mem_of_init hrecords hr) (getElem?_last hrecords)
          (hrnode.trans hnode)
        have hi := (List.getElem?_eq_some_iff.mp hr).1
        omega
  rw [if_neg hnode]
  by_cases hgone : node = record.node
  · rw [if_pos hgone]
    constructor
    · intro hi
      cases hi
    · rintro ⟨r, ⟨-, -, rfl⟩ | ⟨hi, hr⟩, hrnode⟩
      · exact absurd hrnode.symm hnode
      · exact absurd (h.slot_unique (mem_of_init hrecords hr) hp (hrnode.trans hgone)) hi
  · rw [if_neg hgone, h.lookup_concat hrecords]
    constructor
    · rintro ⟨r, hr | ⟨-, rfl⟩, hrnode⟩
      · refine ⟨r, .inr ⟨?_, hr⟩, hrnode⟩
        rintro rfl
        rw [mem_of_init hrecords hr, Option.some_inj] at hp
        exact hgone (hp ▸ hrnode.symm)
      · exact absurd hrnode.symm hnode
    · rintro ⟨r, ⟨-, -, rfl⟩ | ⟨-, hr⟩, hrnode⟩
      · exact absurd hrnode.symm hnode
      · exact ⟨r, .inl hr, hrnode⟩

/-- Where the last slot is vacated nothing moves. -/
theorem lookup_dropped (h : s.Consistent) (hrecords : s.records = init ++ [last]) {node : NodeId}
    {i : Nat} : (s.positions.erase last.node).get? node = some i ↔
      ∃ r : ValidatorRecord, init[i]? = some r ∧ r.node = node := by
  rw [Table.get?_erase]
  by_cases hnode : node = last.node
  · rw [if_pos hnode]
    constructor
    · intro hi
      cases hi
    · rintro ⟨r, hr, hrnode⟩
      have heq := h.slot_unique (mem_of_init hrecords hr) (getElem?_last hrecords)
        (hrnode.trans hnode)
      have hi := (List.getElem?_eq_some_iff.mp hr).1
      omega
  · rw [if_neg hnode, h.lookup_concat hrecords]
    constructor
    · rintro ⟨r, hr | ⟨-, rfl⟩, hrnode⟩
      · exact ⟨r, hr, hrnode⟩
      · exact absurd hrnode.symm hnode
    · rintro ⟨r, hr, hrnode⟩
      exact ⟨r, .inl hr, hrnode⟩

/-- A slot can be vacated. Where the last record moves there, the table must follow it. -/
theorem vacate (h : s.Consistent) (hp : s.records[p]? = some record) :
    Consistent (s.vacate p record) := by
  obtain ⟨init, last, hrecords, hslot⟩ := records_eq_concat hp
  refine ⟨?_, ?_, ?_⟩
  · intro i found hfound
    rw [records_vacate hrecords] at hfound
    rcases getElem?_set_eq_some_iff.mp hfound with ⟨rfl, -, rfl⟩ | ⟨-, hold⟩
    · rfl
    · exact h.position_eq (mem_of_init hrecords hold)
  · intro node i
    rw [records_vacate hrecords, positions_vacate hrecords]
    rcases hslot with hinner | ⟨rfl, rfl⟩
    · rw [if_pos hinner]
      exact h.lookup_moved hp hrecords hinner
    · rw [if_neg (Nat.lt_irrefl _), List.set_eq_of_length_le (Nat.le_refl _)]
      exact h.lookup_dropped hrecords
  · have hsum := h.total_eq
    have hle := h.weight_le_total (List.mem_of_getElem? hp)
    have hnat := ((entries_vacate hp).map (·.2.weight.toNat)).sum_nat
    rw [weight_list] at hsum ⊢
    rw [totalWeight_vacate, UInt64.toNat_sub_of_le _ _ (UInt64.le_iff_toNat_le.mpr hle)]
    simp only [List.map_cons, List.sum_cons] at hnat
    have hentry : record.entry.2.weight = record.weight := rfl
    rw [hentry] at hnat
    omega

end Vacate

/-- A node that the table knows is resolved to its slot and record. -/
theorem resolve_eq (h : s.Consistent) {p : Nat} {record : ValidatorRecord}
    (hp : s.records[p]? = some record) : s.resolve record.node = .ok (p, record) := by
  have hget := h.lookup_iff.mpr ⟨record, hp, rfl⟩
  simp only [resolve, hget, hp]
  rw [if_pos ⟨trivial, h.position_eq hp⟩]

theorem resolve_eq_error (s : ValidatorSet) {node : NodeId} (hnew : s.positions.get? node = none) :
    s.resolve node = .error (.unknownIdentity node) := by
  simp only [resolve, hnew]

/-- Looking up a node finds its record, and nothing but stored records is found. -/
theorem record?_eq_some_iff (h : s.Consistent) {node : NodeId} {r : ValidatorRecord} :
    s.record? node = some r ↔ r ∈ s.records ∧ r.node = node := by
  rw [record?, Option.bind_eq_some_iff, List.mem_iff_getElem?]
  constructor
  · rintro ⟨i, hi, hr⟩
    obtain ⟨r', hr', hnode⟩ := h.lookup_iff.mp hi
    rw [hr', Option.some_inj] at hr
    subst hr
    exact ⟨⟨i, hr'⟩, hnode⟩
  · rintro ⟨⟨i, hr⟩, hnode⟩
    exact ⟨i, h.lookup_iff.mpr ⟨r, hr, hnode⟩, hr⟩

end Consistent

/-! ## Scanning -/

/-- A scan succeeds where every record from the slot on stands where it says and where the table finds
it, and the weights add up to a word. -/
theorem scan_eq_ok_iff {s : ValidatorSet} {slot : Nat} {sum total : UInt64}
    {rest : List ValidatorRecord} :
    s.scan slot sum rest = .ok total ↔
      (∀ i r, rest[i]? = some r → r.position = slot + i ∧
        s.positions.get? r.node = some (slot + i)) ∧
      total.toNat = sum.toNat + ((rest.map entry).map (·.2.weight.toNat)).sum := by
  induction rest generalizing slot sum with
  | nil =>
    simp only [scan, Except.ok.injEq, List.getElem?_nil, List.map_nil, List.sum_nil, Nat.add_zero]
    exact ⟨fun h => ⟨nofun, congrArg UInt64.toNat h.symm⟩, fun h => UInt64.toNat_inj.mp h.2.symm⟩
  | cons record rest ih =>
    have hhead : (∀ i r, (record :: rest)[i]? = some r → r.position = slot + i ∧
          s.positions.get? r.node = some (slot + i)) ↔
        (record.position = slot ∧ s.positions.get? record.node = some slot) ∧
        ∀ i r, rest[i]? = some r → r.position = slot + 1 + i ∧
          s.positions.get? r.node = some (slot + 1 + i) := by
      constructor
      · intro h
        refine ⟨h 0 record rfl, fun i r hr => ?_⟩
        rw [Nat.add_assoc, Nat.add_comm 1]
        exact h (i + 1) r hr
      · rintro ⟨h, hrest⟩ (_ | i) r hr
        · cases hr; exact h
        · rw [← Nat.add_assoc, Nat.add_right_comm]
          exact hrest i r hr
    have hsum : (((record :: rest).map entry).map (·.2.weight.toNat)).sum =
        record.weight.toNat + ((rest.map entry).map (·.2.weight.toNat)).sum := rfl
    rw [hhead, hsum, scan]
    by_cases hslot : record.position = slot ∧ s.positions.get? record.node = some slot
    · rw [if_neg (by rw [not_or, not_not, not_not]; exact hslot)]
      cases hadd : Amount.add? sum record.weight with
      | none =>
        have hbound := Amount.add?_eq_none_iff.mp hadd
        have hword := Amount.toNat_lt_bound total
        simp only [reduceCtorEq, false_iff]
        rintro ⟨-, htotal⟩
        omega
      | some sum' =>
        have hsum' := Amount.add?_eq_some_iff.mp hadd
        simp only [ih, hslot, true_and, and_self, hsum', Nat.add_assoc]
    · rw [if_pos (by rw [← not_and_or]; exact hslot)]
      simp only [reduceCtorEq, hslot, false_and]

/-- Records that the table finds in their slots belong to distinct nodes. -/
theorem nodup_nodes_of_lookup {s : ValidatorSet}
    (h : ∀ i r, s.records[i]? = some r → s.positions.get? r.node = some i) :
    (s.records.map (·.node)).Nodup := by
  rw [List.Nodup, List.pairwise_map, List.pairwise_iff_getElem]
  intro i j hi hj hij hnode
  have hget := h i _ (List.getElem?_eq_getElem hi)
  rw [hnode, h j _ (List.getElem?_eq_getElem hj), Option.some_inj] at hget
  omega

/-- The table knows the stored nodes and no others. -/
theorem Consistent.keys_perm {s : ValidatorSet} (h : s.Consistent) :
    s.positions.keys.Perm (s.records.map (·.node)) := by
  have hnodup := nodup_nodes_of_lookup fun i r hr => h.lookup_iff.mpr ⟨r, hr, rfl⟩
  refine (List.perm_ext_iff_of_nodup s.positions.keys_nodup hnodup).mpr fun node => ?_
  rw [Table.mem_keys_iff, List.mem_map]
  constructor
  · rintro ⟨i, hi⟩
    obtain ⟨r, hr, hnode⟩ := h.lookup_iff.mp hi
    exact ⟨r, List.mem_of_getElem? hr, hnode⟩
  · rintro ⟨r, hr, hnode⟩
    obtain ⟨i, hi⟩ := List.mem_iff_getElem?.mp hr
    exact ⟨i, h.lookup_iff.mpr ⟨r, hi, hnode⟩⟩

/-- The table finds no other nodes than those of the records if it has no more entries. -/
theorem lookup_iff_of_size {s : ValidatorSet}
    (h : ∀ i r, s.records[i]? = some r → s.positions.get? r.node = some i)
    (hsize : s.positions.size = s.records.length) {node : NodeId} {i : Nat} :
    s.positions.get? node = some i ↔
      ∃ r : ValidatorRecord, s.records[i]? = some r ∧ r.node = node := by
  have hsubset : s.records.map (·.node) ⊆ s.positions.keys := by
    intro found hfound
    obtain ⟨r, hr, rfl⟩ := List.mem_map.mp hfound
    obtain ⟨j, hj⟩ := List.mem_iff_getElem?.mp hr
    exact Table.mem_keys_iff.mpr ⟨j, h j r hj⟩
  have hperm : (s.records.map (·.node)).Perm s.positions.keys :=
    ((nodup_nodes_of_lookup h).subperm hsubset).perm_of_length_le
      (by rw [List.length_map, Table.keys, List.length_map]; exact Nat.le_of_eq hsize)
  constructor
  · intro hget
    obtain ⟨r, hr, rfl⟩ := List.mem_map.mp (hperm.mem_iff.mpr (Table.mem_keys_iff.mpr ⟨i, hget⟩))
    obtain ⟨j, hj⟩ := List.mem_iff_getElem?.mp hr
    rw [h j r hj, Option.some_inj] at hget
    exact ⟨r, hget ▸ hj, rfl⟩
  · rintro ⟨r, hr, rfl⟩
    exact h i r hr

/-- The scan finds no fault exactly where the three parts agree. -/
theorem check_eq_ok_iff {s : ValidatorSet} : s.check = .ok () ↔ s.Consistent := by
  constructor
  · intro hcheck
    unfold check at hcheck
    split at hcheck
    · cases hcheck
    · next sum hscan =>
      split at hcheck
      · cases hcheck
      · next hsize =>
        split at hcheck
        · cases hcheck
        · next htotal =>
          obtain ⟨hslots, hsum⟩ := scan_eq_ok_iff.mp hscan
          simp only [Nat.zero_add] at hslots
          rw [not_not] at hsize htotal
          refine ⟨fun hr => (hslots _ _ hr).1,
            lookup_iff_of_size (fun i r hr => (hslots i r hr).2) hsize, ?_⟩
          rw [← htotal, hsum, weight_list]
          exact Nat.zero_add _
  · intro h
    have hscan : s.scan 0 0 s.records = .ok s.totalWeight := by
      refine scan_eq_ok_iff.mpr ⟨fun i r hr => ?_, ?_⟩
      · rw [Nat.zero_add]
        exact ⟨h.position_eq hr, h.lookup_iff.mpr ⟨r, hr, rfl⟩⟩
      · rw [h.total_eq, weight_list]
        exact (Nat.zero_add _).symm
    have hsize : s.positions.size = s.records.length := by
      have hlength := h.keys_perm.length_eq
      rwa [Table.keys, List.length_map, List.length_map] at hlength
    simp [check, hscan, hsize]

end ValidatorSet

end StakeGuard
