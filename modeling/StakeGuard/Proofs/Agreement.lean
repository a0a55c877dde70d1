import StakeGuard.Proofs.CanonicalForm
import StakeGuard.Proofs.StakeRefinement
import StakeGuard.Proofs.Verdict

/-!
# Agreement on signer positions

The order of a validator set's slots depends on all that has been requested of it: a removal moves the
last record. Its canonical set does not. Main statement: validator sets that show the same validators
after any requests have the same canonical set, and judge every attestation alike
(`ValidatorSet.canonical_eq_of_same_validators`).
-/

open scoped List

namespace StakeGuard.ValidatorSet

variable {s s' : ValidatorSet} {m m' : StakeMap}

/-- A set whose parts agree has a canonical set, and both have the same total. -/
theorem Consistent.exists_canonical (h : s.Consistent) :
    ∃ set, CanonicalSet.ofSnapshot s.list = .ok set ∧ set.totalWeight = s.totalWeight := by
  have hnodup : (s.list.map (·.node)).Nodup := by
    rw [list, List.map_map]
    exact nodup_nodes_of_lookup fun i r hr => h.lookup_iff.mpr ⟨r, hr, rfl⟩
  have hweight : s.list.weight < Amount.bound := by
    rw [← h.total_eq]
    exact Amount.toNat_lt_bound _
  obtain ⟨set, hset⟩ := CanonicalSet.exists_ofSnapshot hnodup hweight
  refine ⟨set, hset, UInt64.toNat_inj.mp ?_⟩
  rw [(CanonicalSet.represents_of_ofSnapshot hset).total_eq, h.total_eq]

namespace Mirrors

/-- Looking up a node finds the validator that is listed under it. -/
theorem get?_eq_some_iff (h : s.Mirrors m) {node : NodeId} {v : Validator} :
    s.get? node = some v ↔ v ∈ s.list ∧ v.node = node := by
  rw [h.get, Option.map_eq_some_iff, h.mem_list]
  constructor
  · rintro ⟨member, hm, rfl⟩
    exact ⟨⟨member, hm, rfl⟩, rfl⟩
  · rintro ⟨⟨member, hm, hv⟩, rfl⟩
    exact ⟨member, hm, hv.symm⟩

theorem mem_list_iff_get? (h : s.Mirrors m) {v : Validator} :
    v ∈ s.list ↔ s.get? v.node = some v := by
  rw [h.get?_eq_some_iff, and_iff_left rfl]

/-- Sets show the same validators where they list them in some order each. -/
theorem get?_eq_iff_list_perm (h : s.Mirrors m) (h' : s'.Mirrors m') :
    (∀ node, s.get? node = s'.get? node) ↔ s.list ~ s'.list := by
  constructor
  · intro hsame
    refine (List.perm_ext_iff_of_nodup h.nodup_list.of_map h'.nodup_list.of_map).mpr fun v => ?_
    rw [h.mem_list_iff_get?, h'.mem_list_iff_get?, hsame]
  · intro hperm node
    apply Option.ext
    intro v
    rw [h.get?_eq_some_iff, h'.get?_eq_some_iff, hperm.mem_iff]

end Mirrors

theorem mirrors_run (changes : List StakeChange) :
    (empty.run changes).Mirrors (StakeMap.run changes) := (Holds.run changes).mirrors

/-- **Signer positions do not depend on the history.** Two validator sets that have been through any
requests, granted or refused, and show the same nodes with the same keys and weights in the end, both
have a canonical set, whose total is the cached one; the two are identical, so that every attestation
gets the same verdict against either. -/
theorem canonical_eq_of_same_validators (changes changes' : List StakeChange)
    (hsame : ∀ node, (empty.run changes).get? node = (empty.run changes').get? node) :
    ∃ set set',
      CanonicalSet.ofSnapshot (empty.run changes).list = .ok set ∧
      CanonicalSet.ofSnapshot (empty.run changes').list = .ok set' ∧
      set = set' ∧
      set.totalWeight = (empty.run changes).totalWeight ∧
      set'.totalWeight = (empty.run changes').totalWeight ∧
      ∀ (S : SignatureScheme) (a : Attestation) (message : Message) (quorum : Quorum),
        a.verify S message set quorum = a.verify S message set' quorum := by
  have hperm := ((mirrors_run changes).get?_eq_iff_list_perm (mirrors_run changes')).mp hsame
  obtain ⟨set, hset, htotal⟩ := (Holds.run changes).consistent.exists_canonical
  obtain ⟨set', hset', htotal'⟩ := (Holds.run changes').consistent.exists_canonical
  obtain rfl : set = set' := by
    have hother := (CanonicalSet.ofSnapshot_eq_ok_iff_of_perm hperm).mp hset
    exact Except.ok.inj (hother.symm.trans hset')
  exact ⟨set, set, hset, hset', rfl, htotal, htotal', fun _ _ _ _ => rfl⟩

/-- Two validators join one after the other. -/
def plainChanges : List StakeChange :=
  [.add .zero (some Bls.generatorKey) none 60, .add ⟨.ofNat 20 1⟩ none none 40]

/-- The same two join the other way round, one of them with less weight at first and a third between
them, who leaves again; a second attempt to join is refused. -/
def windingChanges : List StakeChange :=
  [.add ⟨.ofNat 20 1⟩ none (some .zero) 10, .add ⟨.ofNat 20 2⟩ (some Bls.generatorKey) none 5,
    .add .zero (some Bls.generatorKey) none 60, .add .zero none none 1, .remove ⟨.ofNat 20 2⟩,
    .addWeight ⟨.ofNat 20 1⟩ 30]

/-- The two lists differ in their order, and their canonical sets do not. -/
theorem canonical_eq_of_winding_changes :
    (∀ node, (empty.run plainChanges).get? node = (empty.run windingChanges).get? node) ∧
      (empty.run plainChanges).list ≠ (empty.run windingChanges).list ∧
      ∃ set, CanonicalSet.ofSnapshot (empty.run plainChanges).list = .ok set ∧
        CanonicalSet.ofSnapshot (empty.run windingChanges).list = .ok set ∧
        set.totalWeight = 100 := by
  have hperm : (empty.run plainChanges).list ~ (empty.run windingChanges).list := by
    decide +kernel
  have hsame := ((mirrors_run plainChanges).get?_eq_iff_list_perm
    (mirrors_run windingChanges)).mpr hperm
  have htotal : (empty.run plainChanges).totalWeight = 100 := by decide +kernel
  obtain ⟨set, set', hset, hset', rfl, hcached, -⟩ :=
    canonical_eq_of_same_validators plainChanges windingChanges hsame
  exact ⟨hsame, by decide +kernel, set, hset, hset', hcached.trans htotal⟩

end StakeGuard.ValidatorSet
