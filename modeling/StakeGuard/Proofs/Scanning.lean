import StakeGuard.Proofs.StakeRefinement

/-!
# What a scan of a validator set tells

A scan asks every record for its slot and the table for the record's node, and counts; that nodes are
distinct and that the table knows no others it never asks. Main statement: in any state of the three parts
the scan is content exactly where they agree (`ValidatorSet.Intact`), and then, however the set was come
by, no request ever finds a slot corrupted (`ValidatorSet.check_tells`).
-/

namespace StakeGuard

open ValidatorRecord (entry)

namespace ValidatorSet

variable {s : ValidatorSet}

/-- Nothing is wrong with the parts of a set: distinct nodes, each in the slot that its record and the
table say, no others in the table, and the exact total. -/
structure Intact (s : ValidatorSet) : Prop where
  nodes_nodup : (s.records.map (·.node)).Nodup
  position_eq : ∀ i (r : ValidatorRecord), s.records[i]? = some r → r.position = i
  known_iff : ∀ node, s.positions.contains node ↔ node ∈ s.records.map (·.node)
  slot_eq : ∀ i (r : ValidatorRecord), s.records[i]? = some r → s.positions.get? r.node = some i
  total_eq : s.totalWeight.toNat = (s.records.map (·.weight.toNat)).sum

theorem weight_list_eq_sum (s : ValidatorSet) :
    s.list.weight = (s.records.map (·.weight.toNat)).sum := by
  rw [weight_list, List.map_map]
  rfl

/-- A set is intact exactly if it is consistent: the table has as many entries as there are records, so
it knows no others. -/
theorem intact_iff_consistent : s.Intact ↔ s.Consistent := by
  constructor
  · intro h
    refine ⟨h.position_eq _ _, fun {node i} => ⟨fun hi => ?_, ?_⟩, ?_⟩
    · -- what the table knows is stored somewhere, and there the table finds it
      have hknown := (h.known_iff node).mp (Table.contains_iff.mpr ⟨i, hi⟩)
      obtain ⟨r, hr, rfl⟩ := List.mem_map.mp hknown
      obtain ⟨j, hj⟩ := List.mem_iff_getElem?.mp hr
      rw [h.slot_eq j r hj, Option.some_inj] at hi
      exact ⟨r, hi ▸ hj, rfl⟩
    · rintro ⟨r, hr, rfl⟩
      exact h.slot_eq i r hr
    · rw [h.total_eq, weight_list_eq_sum]
  · intro h
    have hslot : ∀ i (r : ValidatorRecord), s.records[i]? = some r → s.positions.get? r.node = some i :=
      fun i r hr => h.lookup_iff.mpr ⟨r, hr, rfl⟩
    refine ⟨nodup_nodes_of_lookup hslot, fun i r => h.position_eq, fun node => ?_, hslot, ?_⟩
    · rw [← h.keys_perm.mem_iff, Table.mem_keys_iff, Table.contains_iff]
    · rw [h.total_eq, weight_list_eq_sum]

namespace Consistent

variable (h : s.Consistent)
include h

/-! ## Any consistent set stands for a map -/

/-- The entries of a consistent set, which has no node twice. -/
def stakes : StakeMap where
  entries := s.records.map entry
  nodup_keys := by
    rw [List.map_map]
    exact nodup_nodes_of_lookup fun i r hr => h.lookup_iff.mpr ⟨r, hr, rfl⟩

theorem holds : Holds s h.stakes := ⟨h, .refl _⟩

/-- Requests keep a consistent set consistent, whatever they are. -/
theorem run (changes : List StakeChange) : (s.run changes).Consistent :=
  List.foldlRecOn changes step h fun _ h change _ => (h.holds.step change).consistent

/-- The map has no slots, so a set that stands for one finds none corrupted. -/
theorem apply_ne_corruptPosition (change : StakeChange) (node : NodeId) (indexed stored : Nat) :
    s.apply change ≠ .error (.corruptPosition node indexed stored) := by
  intro herror
  have hanswer := (h.holds.apply change).map_eq (f := (·.removed)) (g := (·.2)) And.right
  rw [herror] at hanswer
  exact StakeMap.ne_corruptPosition_of_apply (Outcome.map_eq_error_iff.mp hanswer.symm) _ _ _ rfl

end Consistent

/-- **A scan misses nothing and sees nothing that is not there.** Whatever the records, the table and the
total are, the scan is content exactly where the set is intact. From such a state on the scan stays content
whatever is requested, and no request is refused for a corrupted slot. -/
theorem check_tells (s : ValidatorSet) :
    (s.check = .ok () ↔ s.Intact) ∧
    (s.check = .ok () → ∀ changes, (s.run changes).check = .ok () ∧
      ∀ change node indexed stored,
        (s.run changes).apply change ≠ .error (.corruptPosition node indexed stored)) := by
  refine ⟨check_eq_ok_iff.trans intact_iff_consistent.symm, fun hcheck changes => ?_⟩
  have h := (check_eq_ok_iff.mp hcheck).run changes
  exact ⟨check_eq_ok_iff.mpr h, h.apply_ne_corruptPosition⟩

/-- Weights whose sum wraps around to the cached total. -/
example : check {
    records := [⟨⟨.zero, none, 18446744073709551615⟩, none, 0⟩, ⟨⟨⟨.ofNat 20 1⟩, none, 1⟩, none, 1⟩]
    positions := (Table.empty.insert .zero 0).insert ⟨.ofNat 20 1⟩ 1
    totalWeight := 0 } = .error (.weightOverflow 18446744073709551615 1) := by decide +kernel

end ValidatorSet

end StakeGuard
