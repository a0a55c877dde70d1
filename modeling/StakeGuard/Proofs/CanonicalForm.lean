import Mathlib.Data.List.Sort
import StakeGuard.Proofs.Canonical

/-!
# The canonical set of a snapshot

A snapshot has a canonical set exactly where it names no node twice and its weights add up to a word,
and then the one set that represents it (`CanonicalSet.ofSnapshot_eq_ok_iff`). Main statement: the set
loses, doubles and misattributes nothing, and does not depend on the order of the snapshot
(`CanonicalSet.ofSnapshot_projects`).
-/

open scoped List

namespace StakeGuard

/-- Two lists with the same elements, both strictly ascending by some key, are one list. -/
theorem eq_of_ascending {α β : Type} [Ord β] [Std.TransOrd β] {f : α → β} {xs ys : List α}
    (hxs : xs.Pairwise fun a b => compare (f a) (f b) = .lt)
    (hys : ys.Pairwise fun a b => compare (f a) (f b) = .lt) (hmem : ∀ a, a ∈ xs ↔ a ∈ ys) :
    xs = ys := by
  have hirrefl : Std.Irrefl fun a b : α => compare (f a) (f b) = .lt :=
    ⟨fun a h => ne_of_compare_lt h rfl⟩
  have hasymm : Std.Asymm fun a b : α => compare (f a) (f b) = .lt :=
    ⟨fun a b hab hba => ne_of_compare_lt (Std.TransCmp.lt_trans hab hba) rfl⟩
  exact hxs.eq_of_mem_iff hys hmem

variable {snapshot other : Snapshot} {v : Validator} {key : PublicKey}

/-- What an entry gathers is determined by its key. -/
theorem CanonicalValidator.Gathers.eq_of_key_eq {e e' : CanonicalValidator}
    (h : e.Gathers snapshot) (h' : e'.Gathers snapshot) (hkey : e.key = e'.key) : e = e' := by
  have hweight : e.weight = e'.weight := by
    apply UInt64.toNat_inj.mp
    rw [h.weight_eq, h'.weight_eq, hkey]
  have hnodes : e.nodes = e'.nodes := by
    refine eq_of_ascending (f := id) h.nodes_ascending h'.nodes_ascending fun node => ?_
    rw [h.mem_nodes_iff, h'.mem_nodes_iff, hkey]
  cases e; cases e'
  cases hkey; cases hweight; cases hnodes
  rfl

namespace CanonicalSet

variable {set set' : CanonicalSet}

namespace Represents

theorem mem_of_represents (h : set.Represents snapshot) (h' : set'.Represents snapshot)
    {e : CanonicalValidator} (he : e ∈ set.validators) : e ∈ set'.validators := by
  have hkey : e.key ∈ set'.keys := by
    rw [h'.mem_keys_iff, ← h.mem_keys_iff]
    exact List.mem_map_of_mem he
  obtain ⟨e', he', hkey⟩ := List.mem_map.mp hkey
  rwa [(h.gathers e he).eq_of_key_eq (h'.gathers e' he') hkey.symm]

/-- A snapshot is represented by one set at most. -/
theorem eq_of_represents (h : set.Represents snapshot) (h' : set'.Represents snapshot) :
    set = set' := by
  have htotal : set.totalWeight = set'.totalWeight := by
    apply UInt64.toNat_inj.mp
    rw [h.total_eq, h'.total_eq]
  have hvalidators : set.validators = set'.validators :=
    eq_of_ascending (f := (·.key)) (List.pairwise_map.mp h.keys_ascending)
      (List.pairwise_map.mp h'.keys_ascending)
      fun _ => ⟨h.mem_of_represents h', h'.mem_of_represents h⟩
  cases set; cases set'
  cases htotal; cases hvalidators
  rfl

theorem weight_le_total (h : set.Represents snapshot) {e : CanonicalValidator}
    (he : e ∈ set.validators) : e.weight.toNat ≤ set.totalWeight.toNat := by
  rw [(h.gathers e he).weight_eq, h.total_eq]
  exact Snapshot.weight_under_le _ _

/-- The entries and the validators without a key weigh the total together. -/
theorem sum_weight_add_weight_keyless (h : set.Represents snapshot) :
    (set.validators.map (·.weight.toNat)).sum + snapshot.keyless.weight =
      set.totalWeight.toNat := by
  rw [h.sum_weight_of_sublist (.refl _), h.total_eq]
  exact Snapshot.weight_under_add_weight_keyless fun v hv key hkey =>
    h.mem_keys_iff.mpr ⟨v, hv, hkey⟩

end Represents

/-! ## No validator is refused without cause -/

/-- A node enters where the entry of its key, if there is one, has room for its weight. -/
theorem exists_enter {entries : List CanonicalValidator} (key : PublicKey) (node : NodeId)
    {weight : UInt64} (h : ∀ e ∈ entries, e.weight.toNat + weight.toNat < Amount.bound) :
    ∃ entries', enter key node weight entries = .ok entries' := by
  induction entries with
  | nil => exact ⟨_, rfl⟩
  | cons e rest ih =>
    rw [enter]
    split
    · exact ⟨_, rfl⟩
    · have hroom := h e List.mem_cons_self
      rw [Amount.add?, if_pos hroom]
      exact ⟨_, rfl⟩
    · obtain ⟨rest', hrest⟩ := ih fun f hf => h f (List.mem_cons_of_mem _ hf)
      rw [hrest]
      exact ⟨_, rfl⟩

/-- Where the total has room for a weight, every entry has: none weighs more than the total. -/
theorem Represents.exists_enter (h : set.Represents snapshot) (key : PublicKey) (node : NodeId)
    {weight total : UInt64} (htotal : Amount.add? set.totalWeight weight = some total) :
    ∃ entries, enter key node weight set.validators = .ok entries := by
  refine CanonicalSet.exists_enter key node fun e he => ?_
  have hle := h.weight_le_total he
  have hsum := Amount.add?_eq_some_iff.mp htotal
  have hlt := Amount.toNat_lt_bound total
  omega

namespace Tally

variable {t : Tally}

theorem Follows.exists_add (h : t.Follows snapshot) (hnode : v.node ∉ snapshot.map (·.node))
    (hweight : Snapshot.weight (v :: snapshot) < Amount.bound) : ∃ t', t.add v = .ok t' := by
  rw [Snapshot.weight_cons, ← h.represents.total_eq, Nat.add_comm] at hweight
  have htotal : Amount.add? t.set.totalWeight v.weight = some (t.set.totalWeight + v.weight) :=
    if_pos hweight
  rw [Tally.add, h.seen_eq, if_neg hnode, htotal]
  cases hkey : v.key with
  | none => exact ⟨_, rfl⟩
  | some key =>
    obtain ⟨entries, hentries⟩ := h.represents.exists_enter key v.node htotal
    simp only [hentries]
    exact ⟨_, rfl⟩

theorem Follows.exists_foldlM {rest : Snapshot} (h : t.Follows snapshot)
    (hnodup : ((rest.reverse ++ snapshot).map (·.node)).Nodup)
    (hweight : Snapshot.weight (rest.reverse ++ snapshot) < Amount.bound) :
    ∃ t', rest.foldlM Tally.add t = .ok t' := by
  induction rest generalizing t snapshot with
  | nil => exact ⟨t, rfl⟩
  | cons v rest ih =>
    rw [List.reverse_cons, List.append_assoc] at hnodup hweight
    have hsub : (v :: snapshot).Sublist (rest.reverse ++ ([v] ++ snapshot)) :=
      List.sublist_append_right _ _
    have hnode := (List.nodup_cons.mp (hnodup.sublist (hsub.map _))).1
    have hfits := Nat.lt_of_le_of_lt (Snapshot.weight_le_of_sublist hsub) hweight
    obtain ⟨next, hadd⟩ := h.exists_add hnode hfits
    rw [List.foldlM_cons, hadd]
    exact ih (h.add hadd) hnodup hweight

end Tally

/-- A snapshot that names no node twice and whose weights fit a word has a canonical set. -/
theorem exists_ofSnapshot (hnodup : (snapshot.map (·.node)).Nodup)
    (hweight : snapshot.weight < Amount.bound) : ∃ set, ofSnapshot snapshot = .ok set := by
  -- the tally takes the validators in order, so it has seen the snapshot from its end
  have hperm : snapshot.reverse ++ [] ~ snapshot := by
    rw [List.append_nil]
    exact snapshot.reverse_perm
  obtain ⟨t, hfold⟩ := Tally.follows_nil.exists_foldlM ((hperm.map _).nodup_iff.mpr hnodup)
    (by rw [Snapshot.weight_perm hperm]; exact hweight)
  exact ⟨t.set, Outcome.map_eq_ok_iff.mpr ⟨t, hfold, rfl⟩⟩

/-- The canonical set of a snapshot is the set that represents it. -/
theorem ofSnapshot_eq_ok_iff : ofSnapshot snapshot = .ok set ↔ set.Represents snapshot := by
  refine ⟨represents_of_ofSnapshot, fun h => ?_⟩
  obtain ⟨set', hset'⟩ := exists_ofSnapshot h.nodes_nodup (by
    rw [← h.total_eq]
    exact Amount.toNat_lt_bound _)
  rw [hset', h.eq_of_represents (represents_of_ofSnapshot hset')]

/-- The canonical set does not depend on the order of the snapshot. -/
theorem ofSnapshot_eq_ok_iff_of_perm (hperm : snapshot ~ other) :
    ofSnapshot snapshot = .ok set ↔ ofSnapshot other = .ok set := by
  rw [ofSnapshot_eq_ok_iff, ofSnapshot_eq_ok_iff]
  exact ⟨fun h => h.perm hperm, fun h => h.perm hperm.symm⟩

/-- **Canonicalization is a complete projection that forgets the order.** A snapshot has a canonical
set exactly where its nodes are distinct and its weights add up to a word. The set then represents the
snapshot: its keys are those that occur, in ascending order, each with the sum of the weights and the
ascending list of the nodes registered under it; with the weight of the validators without a key the
entries make up the total. No entry overflows where the total does not, whatever part of a snapshot
has been seen, and snapshots with the same validators have the same set or none. -/
theorem ofSnapshot_projects (snapshot : Snapshot) :
    ((∃ set, ofSnapshot snapshot = .ok set) ↔
      (snapshot.map (·.node)).Nodup ∧ snapshot.weight < Amount.bound) ∧
    (∀ set, ofSnapshot snapshot = .ok set → set.Represents snapshot ∧
      (set.validators.map (·.weight.toNat)).sum + snapshot.keyless.weight =
        set.totalWeight.toNat) ∧
    (∀ t, snapshot.foldlM Tally.add ⟨[], [], 0⟩ = .ok t → ∀ key node weight total,
      Amount.add? t.set.totalWeight weight = some total →
        ∃ entries, enter key node weight t.set.validators = .ok entries) ∧
    ∀ other, snapshot ~ other → ∀ set, ofSnapshot snapshot = .ok set ↔ ofSnapshot other = .ok set := by
  refine ⟨⟨?_, fun h => exists_ofSnapshot h.1 h.2⟩, ?_, ?_, ?_⟩
  · rintro ⟨set, hset⟩
    have h := represents_of_ofSnapshot hset
    exact ⟨h.nodes_nodup, h.total_eq ▸ Amount.toNat_lt_bound _⟩
  · intro set hset
    have h := represents_of_ofSnapshot hset
    exact ⟨h, h.sum_weight_add_weight_keyless⟩
  · intro t hfold key node weight total htotal
    exact (Tally.follows_nil.foldlM hfold).represents.exists_enter key node htotal
  · intro other hperm set
    exact ofSnapshot_eq_ok_iff_of_perm hperm

end CanonicalSet

end StakeGuard
