import Mathlib.Data.List.Nodup
import Mathlib.Data.List.Perm.Basic
import StakeGuard.CanonicalSet
import StakeGuard.Proofs.Outcome
import StakeGuard.Proofs.SnapshotWeight

/-!
# What a canonical set represents

A canonical set represents a snapshot where its entries gather exactly the validators of their keys,
with every key that occurs, in ascending order, and its total is that of the whole snapshot. What
`CanonicalSet.ofSnapshot` makes of a snapshot represents it (`represents_of_ofSnapshot`): each
validator that is taken into account keeps this of the validators seen so far.
-/

open scoped List

namespace StakeGuard

variable {snapshot : Snapshot} {v : Validator} {key : PublicKey}

namespace CanonicalValidator

/-- The entry gathers the validators that are registered under its key. -/
structure Gathers (entry : CanonicalValidator) (snapshot : Snapshot) : Prop where
  weight_eq : entry.weight.toNat = (snapshot.under [entry.key]).weight
  nodes_ascending : entry.nodes.Pairwise (compare · · = .lt)
  mem_nodes_iff : ∀ {node}, node ∈ entry.nodes ↔
    ∃ v ∈ snapshot, v.node = node ∧ v.key = some entry.key

namespace Gathers

variable {entry : CanonicalValidator}

/-- A validator of another key, or of none, is not the entry's affair. -/
theorem skip (h : entry.Gathers snapshot) (hkey : v.key ≠ some entry.key) :
    entry.Gathers (v :: snapshot) where
  weight_eq := by
    rw [Snapshot.under_cons_of_not_mem (by simpa using hkey)]
    exact h.weight_eq
  nodes_ascending := h.nodes_ascending
  mem_nodes_iff := by
    intro node
    simp [h.mem_nodes_iff, hkey]

/-- The first validator of a key opens its entry. -/
theorem first (hkey : v.key = some key) (hfresh : ∀ w ∈ snapshot, w.key ≠ some key) :
    Gathers ⟨key, v.weight, [v.node]⟩ (v :: snapshot) where
  weight_eq := by
    have hnone : snapshot.under [key] = [] :=
      List.eq_nil_iff_forall_not_mem.mpr fun w hw => by
        obtain ⟨hmem, k, hk, hwkey⟩ := Snapshot.mem_under_iff.mp hw
        exact hfresh w hmem (List.mem_singleton.mp hk ▸ hwkey)
    rw [Snapshot.under_cons_of_mem hkey List.mem_cons_self, Snapshot.weight_cons, hnone]
    rfl
  nodes_ascending := List.pairwise_singleton _ _
  mem_nodes_iff := by
    intro node
    constructor
    · intro hmem
      exact ⟨v, List.mem_cons_self, (List.mem_singleton.mp hmem).symm, hkey⟩
    · rintro ⟨w, hw, rfl, hwkey⟩
      rcases List.mem_cons.mp hw with rfl | hw
      · exact List.mem_singleton_self _
      · exact absurd hwkey (hfresh w hw)

/-- A further validator of the key joins the entry. -/
theorem join (h : entry.Gathers snapshot) (hkey : v.key = some entry.key)
    (hnode : v.node ∉ snapshot.map (·.node)) {weight : UInt64}
    (hweight : Amount.add? entry.weight v.weight = some weight) :
    Gathers { entry with weight, nodes := insertAscending v.node entry.nodes } (v :: snapshot) where
  weight_eq := by
    rw [Snapshot.under_cons_of_mem hkey List.mem_cons_self, Snapshot.weight_cons, ← h.weight_eq,
      Nat.add_comm]
    exact Amount.add?_eq_some_iff.mp hweight
  nodes_ascending := by
    refine pairwise_insertAscending h.nodes_ascending fun hmem => hnode ?_
    obtain ⟨w, hw, hwnode, -⟩ := h.mem_nodes_iff.mp hmem
    exact List.mem_map.mpr ⟨w, hw, hwnode⟩
  mem_nodes_iff := by
    intro node
    simp [mem_insertAscending_iff, h.mem_nodes_iff, hkey, eq_comm]

theorem perm (h : entry.Gathers snapshot) {other : Snapshot} (hperm : snapshot ~ other) :
    entry.Gathers other where
  weight_eq := h.weight_eq.trans (Snapshot.weight_perm (hperm.filter _))
  nodes_ascending := h.nodes_ascending
  mem_nodes_iff := by
    intro node
    rw [h.mem_nodes_iff]
    simp only [hperm.mem_iff]

end Gathers

end CanonicalValidator

namespace CanonicalSet

/-- The keys of the positions, in order. -/
def keys (set : CanonicalSet) : List PublicKey := set.validators.map (·.key)

/-- The set numbers the signers of a snapshot. -/
structure Represents (set : CanonicalSet) (snapshot : Snapshot) : Prop where
  nodes_nodup : (snapshot.map (·.node)).Nodup
  total_eq : set.totalWeight.toNat = snapshot.weight
  keys_ascending : set.keys.Pairwise (compare · · = .lt)
  mem_keys_iff : ∀ {key}, key ∈ set.keys ↔ ∃ v ∈ snapshot, v.key = some key
  gathers : ∀ entry ∈ set.validators, entry.Gathers snapshot

/-! ## One more validator -/

section Enter

variable {node : NodeId} {weight : UInt64} {entries entries' : List CanonicalValidator}

/-- The entry of a node's key once the node has entered: a new one, or the one there was. -/
inductive Entered (key : PublicKey) (node : NodeId) (weight : UInt64)
    (entries : List CanonicalValidator) : CanonicalValidator → Prop
  | first (hfresh : ∀ e ∈ entries, e.key ≠ key) :
    Entered key node weight entries ⟨key, weight, [node]⟩
  | join {e : CanonicalValidator} {sum : UInt64} (he : e ∈ entries) (hkey : e.key = key)
    (hsum : Amount.add? e.weight weight = some sum) :
    Entered key node weight entries
      { e with weight := sum, nodes := insertAscending node e.nodes }

theorem Entered.key_eq {e : CanonicalValidator} (h : Entered key node weight entries e) :
    e.key = key := by
  cases h with
  | first => rfl
  | join _ hkey _ => exact hkey

theorem Entered.cons {e e' : CanonicalValidator} (h : Entered key node weight entries e)
    (hne : e'.key ≠ key) : Entered key node weight (e' :: entries) e := by
  cases h with
  | first hfresh =>
    refine .first fun f hf => ?_
    rcases List.mem_cons.mp hf with rfl | hf
    · exact hne
    · exact hfresh f hf
  | join he hkey hsum => exact .join (List.mem_cons_of_mem _ he) hkey hsum

/-- A node enters one entry, the one of its key; the others and the order of the keys stay. -/
theorem enter_spec (hasc : (entries.map (·.key)).Pairwise (compare · · = .lt))
    (h : enter key node weight entries = .ok entries') :
    (entries'.map (·.key)).Pairwise (compare · · = .lt) ∧
      ∃ entered, Entered key node weight entries entered ∧
        ∀ e, e ∈ entries' ↔ e = entered ∨ e ∈ entries ∧ e.key ≠ key := by
  -- the entries passed on the way have smaller keys, so the new key is fresh where it is put down
  induction entries generalizing entries' with
  | nil =>
    cases h
    exact ⟨List.pairwise_singleton _ _, _, .first (by simp), by simp⟩
  | cons e rest ih =>
    obtain ⟨he, hrest⟩ := List.pairwise_cons.mp hasc
    have hafter : ∀ f ∈ rest, compare e.key f.key = .lt :=
      fun f hf => he _ (List.mem_map_of_mem hf)
    rw [enter] at h
    split at h
    · next hlt =>
      cases h
      have hall : ∀ f ∈ e :: rest, compare key f.key = .lt := by
        intro f hf
        rcases List.mem_cons.mp hf with rfl | hf
        · exact hlt
        · exact Std.TransCmp.lt_trans hlt (hafter f hf)
      have hne : ∀ f ∈ e :: rest, f.key ≠ key := fun f hf => (ne_of_compare_lt (hall f hf)).symm
      refine ⟨List.pairwise_cons.mpr ⟨?_, hasc⟩, _, .first hne, fun f => ?_⟩
      · intro k hk
        obtain ⟨f, hf, rfl⟩ := List.mem_map.mp hk
        exact hall f hf
      · rw [List.mem_cons, and_iff_left_of_imp (hne f)]
    · next heq =>
      have hkey : key = e.key := Std.LawfulEqOrd.eq_of_compare heq
      have hne : ∀ f ∈ rest, f.key ≠ key := by
        intro f hf
        rw [hkey]
        exact (ne_of_compare_lt (hafter f hf)).symm
      split at h
      · cases h
      · next sum hsum =>
        cases h
        refine ⟨hasc, _, .join List.mem_cons_self hkey.symm hsum, fun f => ?_⟩
        rw [List.mem_cons, List.mem_cons, or_and_right, and_iff_left_of_imp (hne f)]
        have hself : ¬(f = e ∧ f.key ≠ key) := by
          rintro ⟨rfl, hfkey⟩
          exact hfkey hkey.symm
        simp only [hself, false_or]
    · next hgt =>
      obtain ⟨rest', hrest', rfl⟩ := Outcome.map_eq_ok_iff.mp h
      obtain ⟨hasc', entered, hentered, hmem⟩ := ih hrest hrest'
      have hlt : compare e.key key = .lt := Std.OrientedCmp.lt_of_gt hgt
      have hne : e.key ≠ key := ne_of_compare_lt hlt
      refine ⟨List.pairwise_cons.mpr ⟨?_, hasc'⟩, entered, hentered.cons hne, fun f => ?_⟩
      · intro k hk
        obtain ⟨f, hf, rfl⟩ := List.mem_map.mp hk
        rcases (hmem f).mp hf with rfl | ⟨hf, -⟩
        · rw [hentered.key_eq]
          exact hlt
        · exact hafter f hf
      · rw [List.mem_cons, hmem, List.mem_cons, or_and_right, or_left_comm]
        have hself : f = e ∧ f.key ≠ key ↔ f = e :=
          and_iff_left_of_imp fun heq => heq ▸ hne
        rw [hself]

end Enter

namespace Represents

variable {set : CanonicalSet} {total : UInt64}

theorem total_add (h : set.Represents snapshot)
    (htotal : Amount.add? set.totalWeight v.weight = some total) :
    total.toNat = Snapshot.weight (v :: snapshot) := by
  rw [Snapshot.weight_cons, ← h.total_eq, Nat.add_comm]
  exact Amount.add?_eq_some_iff.mp htotal

/-- A validator without a key adds to the total only. -/
theorem keyless (h : set.Represents snapshot) (hnode : v.node ∉ snapshot.map (·.node))
    (htotal : Amount.add? set.totalWeight v.weight = some total) (hkey : v.key = none) :
    Represents { set with totalWeight := total } (v :: snapshot) where
  nodes_nodup := List.nodup_cons.mpr ⟨hnode, h.nodes_nodup⟩
  total_eq := h.total_add htotal
  keys_ascending := h.keys_ascending
  mem_keys_iff := by
    intro k
    have hset : k ∈ keys { set with totalWeight := total } ↔ k ∈ set.keys := .rfl
    simp [hset, h.mem_keys_iff, hkey]
  gathers e he := (h.gathers e he).skip (by simp [hkey])

/-- A validator with a key enters the entry of the key. -/
theorem keyed (h : set.Represents snapshot) (hnode : v.node ∉ snapshot.map (·.node))
    (htotal : Amount.add? set.totalWeight v.weight = some total) (hkey : v.key = some key)
    {entries : List CanonicalValidator}
    (henter : enter key v.node v.weight set.validators = .ok entries) :
    Represents ⟨entries, total⟩ (v :: snapshot) := by
  obtain ⟨hasc, entered, hentered, hmem⟩ := enter_spec h.keys_ascending henter
  have hgathers : entered.Gathers (v :: snapshot) := by
    cases hentered with
    | first hfresh =>
      refine .first hkey fun w hw hwkey => ?_
      obtain ⟨e, he, hekey⟩ := List.mem_map.mp (h.mem_keys_iff.mpr ⟨w, hw, hwkey⟩)
      exact hfresh e he hekey
    | join he hekey hsum => exact (h.gathers _ he).join (hekey ▸ hkey) hnode hsum
  refine ⟨List.nodup_cons.mpr ⟨hnode, h.nodes_nodup⟩, h.total_add htotal, hasc, ?_, ?_⟩
  · intro k
    have hkeys : k ∈ keys ⟨entries, total⟩ ↔ k = key ∨ k ∈ set.keys := by
      constructor
      · intro hk
        obtain ⟨e, he, rfl⟩ := List.mem_map.mp hk
        rcases (hmem e).mp he with rfl | ⟨he, -⟩
        · exact .inl hentered.key_eq
        · exact .inr (List.mem_map_of_mem he)
      · intro hk
        by_cases heq : k = key
        · exact List.mem_map.mpr ⟨entered, (hmem _).mpr (.inl rfl), heq ▸ hentered.key_eq⟩
        · obtain ⟨e, he, rfl⟩ := List.mem_map.mp (hk.resolve_left heq)
          exact List.mem_map_of_mem ((hmem e).mpr (.inr ⟨he, heq⟩))
    rw [hkeys, h.mem_keys_iff]
    simp [hkey, eq_comm]
  · intro e he
    rcases (hmem e).mp he with rfl | ⟨he, hne⟩
    · exact hgathers
    · refine (h.gathers e he).skip ?_
      rw [hkey]
      exact fun heq => hne (Option.some.inj heq).symm

theorem perm (h : set.Represents snapshot) {other : Snapshot} (hperm : snapshot ~ other) :
    set.Represents other where
  nodes_nodup := (hperm.map _).nodup_iff.mp h.nodes_nodup
  total_eq := h.total_eq.trans (Snapshot.weight_perm hperm)
  keys_ascending := h.keys_ascending
  mem_keys_iff := by
    intro k
    rw [h.mem_keys_iff]
    simp only [hperm.mem_iff]
  gathers e he := (h.gathers e he).perm hperm

theorem keys_nodup (h : set.Represents snapshot) : set.keys.Nodup :=
  h.keys_ascending.imp ne_of_compare_lt

/-- The weight at some of the entries is that of the validators under their keys. -/
theorem sum_weight_of_sublist (h : set.Represents snapshot) {entries : List CanonicalValidator}
    (hsub : entries.Sublist set.validators) :
    (entries.map (·.weight.toNat)).sum = (snapshot.under (entries.map (·.key))).weight := by
  have hnodup : (entries.map (·.key)).Nodup := h.keys_nodup.sublist (hsub.map _)
  have hweights : entries.map (·.weight.toNat) =
      (entries.map (·.key)).map fun key => (snapshot.under [key]).weight := by
    rw [List.map_map]
    exact List.map_congr_left fun e he => (h.gathers e (hsub.subset he)).weight_eq
  rw [hweights, Snapshot.sum_weight_under hnodup]

end Represents

/-- The tally has taken the validators of a snapshot into account, the last one first. -/
structure Tally.Follows (t : Tally) (snapshot : Snapshot) : Prop where
  seen_eq : t.seen = snapshot.map (·.node)
  represents : t.set.Represents snapshot

theorem Tally.follows_nil : Follows ⟨[], [], 0⟩ [] where
  seen_eq := rfl
  represents := ⟨List.nodup_nil, rfl, List.Pairwise.nil, by simp [keys], nofun⟩

/-- One more validator is taken into account. -/
theorem Tally.Follows.add {t t' : Tally} (h : t.Follows snapshot) (hadd : t.add v = .ok t') :
    t'.Follows (v :: snapshot) := by
  rw [Tally.add] at hadd
  split at hadd
  · cases hadd
  · next hnode =>
    rw [h.seen_eq] at hnode
    split at hadd
    · cases hadd
    · next total htotal =>
      have hseen : v.node :: t.seen = (v :: snapshot).map (·.node) := by
        rw [h.seen_eq, List.map_cons]
      split at hadd
      · next hkey =>
        cases hadd
        exact ⟨hseen, h.represents.keyless hnode htotal hkey⟩
      · next key hkey =>
        obtain ⟨entries, henter, rfl⟩ := Outcome.map_eq_ok_iff.mp hadd
        exact ⟨hseen, h.represents.keyed hnode htotal hkey henter⟩

/-- The whole snapshot is, by induction on what is left of it. -/
theorem Tally.Follows.foldlM {t t' : Tally} {rest : Snapshot} (h : t.Follows snapshot)
    (hfold : rest.foldlM Tally.add t = .ok t') : t'.Follows (rest.reverse ++ snapshot) := by
  induction rest generalizing t snapshot with
  | nil => cases hfold; exact h
  | cons v rest ih =>
    rw [List.foldlM_cons] at hfold
    cases hadd : t.add v with
    | error e => rw [hadd] at hfold; cases hfold
    | ok next =>
      rw [hadd] at hfold
      rw [List.reverse_cons, List.append_assoc]
      exact ih (h.add hadd) hfold

/-- The canonical set of a snapshot represents it. -/
theorem represents_of_ofSnapshot {set : CanonicalSet} (h : ofSnapshot snapshot = .ok set) :
    set.Represents snapshot := by
  obtain ⟨t, hfold, rfl⟩ := Outcome.map_eq_ok_iff.mp h
  have hfollows := Tally.follows_nil.foldlM hfold
  rw [List.append_nil] at hfollows
  -- the tally has seen the snapshot from its end, which the set does not depend on
  exact hfollows.represents.perm snapshot.reverse_perm

end CanonicalSet

end StakeGuard
