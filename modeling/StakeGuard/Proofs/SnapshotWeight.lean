import Mathlib.Algebra.BigOperators.Group.List.Basic
import Mathlib.Algebra.Order.BigOperators.Group.List
import Mathlib.Algebra.Order.Ring.Nat
import StakeGuard.Proofs.TableSum
import StakeGuard.Validator

/-!
# Weights of parts of a snapshot

The validators registered under one of several keys, and their combined weight. Main statements: for
distinct keys it is the sum of the weights under each key (`sum_weight_under`), and under all keys that
occur it is the whole weight but for that of the validators without a key
(`weight_under_add_weight_keyless`).
-/

open scoped List

namespace StakeGuard.Snapshot

/-- The validators that are registered under one of the keys. -/
def under (snapshot : Snapshot) (keys : List PublicKey) : Snapshot :=
  snapshot.filter fun v => v.key.any (· ∈ keys)

/-- The validators that cannot sign. -/
def keyless (snapshot : Snapshot) : Snapshot := snapshot.filter (·.key.isNone)

variable {snapshot : Snapshot} {keys : List PublicKey} {key : PublicKey}

theorem weight_eq_sum (snapshot : Snapshot) :
    snapshot.weight = (snapshot.map (·.weight.toNat)).sum := Amount.sum_eq_list_sum _

theorem weight_cons (v : Validator) (rest : Snapshot) :
    Snapshot.weight (v :: rest) = v.weight.toNat + Snapshot.weight rest := rfl

theorem weight_perm {other : Snapshot} (h : snapshot ~ other) :
    snapshot.weight = other.weight := by
  rw [weight_eq_sum, weight_eq_sum]
  exact (h.map _).sum_nat

theorem weight_pos_of_mem {v : Validator} (hv : v ∈ snapshot) (hweight : v.weight ≠ 0) :
    0 < snapshot.weight := by
  have hle : v.weight.toNat ≤ (snapshot.map (·.weight.toNat)).sum :=
    List.le_sum_of_mem (List.mem_map_of_mem hv)
  have hpos : v.weight.toNat ≠ 0 := fun hzero => hweight (UInt64.toNat_inj.mp hzero)
  rw [weight_eq_sum]
  omega

theorem weight_le_of_sublist {part : Snapshot} (h : part.Sublist snapshot) :
    part.weight ≤ snapshot.weight := by
  rw [weight_eq_sum, weight_eq_sum]
  exact (h.map _).sum_le_sum fun _ _ => Nat.zero_le _

theorem weight_under_le (snapshot : Snapshot) (keys : List PublicKey) :
    (snapshot.under keys).weight ≤ snapshot.weight :=
  weight_le_of_sublist List.filter_sublist

theorem mem_under_iff {v : Validator} :
    v ∈ snapshot.under keys ↔ v ∈ snapshot ∧ ∃ key ∈ keys, v.key = some key := by
  cases hkey : v.key <;> simp [under, hkey]

theorem under_cons_of_mem {v : Validator} (hkey : v.key = some key) (hmem : key ∈ keys) :
    under (v :: snapshot) keys = v :: under snapshot keys := by
  simp [under, hkey, hmem]

theorem under_cons_of_not_mem {v : Validator} (h : ∀ key ∈ keys, v.key ≠ some key) :
    under (v :: snapshot) keys = under snapshot keys := by
  refine List.filter_cons_of_neg fun hany => ?_
  obtain ⟨key, hkey, hmem⟩ := (Option.any_eq_true _ _).mp hany
  exact h key (of_decide_eq_true hmem) hkey

/-- One more key adds the weight under it. -/
theorem weight_under_cons (hfresh : key ∉ keys) :
    (under snapshot (key :: keys)).weight =
      (under snapshot [key]).weight + (under snapshot keys).weight := by
  induction snapshot with
  | nil => rfl
  | cons v rest ih =>
    by_cases hone : v.key = some key
    · have hother : ∀ k ∈ keys, v.key ≠ some k := by
        rintro k hk hv
        rw [hone] at hv
        cases hv
        exact hfresh hk
      rw [under_cons_of_mem hone List.mem_cons_self, under_cons_of_mem hone List.mem_cons_self,
        under_cons_of_not_mem hother, weight_cons, weight_cons, ih, Nat.add_assoc]
    · have hnone : ∀ k ∈ [key], v.key ≠ some k := by simpa using hone
      rw [under_cons_of_not_mem hnone]
      by_cases hmany : ∃ k ∈ keys, v.key = some k
      · obtain ⟨k, hk, hv⟩ := hmany
        rw [under_cons_of_mem hv (List.mem_cons_of_mem _ hk), under_cons_of_mem hv hk, weight_cons,
          weight_cons, ih, Nat.add_left_comm]
      · have hall : ∀ k ∈ key :: keys, v.key ≠ some k := by
          simpa [hone] using hmany
        rw [under_cons_of_not_mem hall, ih,
          under_cons_of_not_mem fun k hk => hall k (List.mem_cons_of_mem _ hk)]

/-- The weight under several keys is the sum of the weights under each, as no validator has two. -/
theorem sum_weight_under (hnodup : keys.Nodup) :
    (keys.map fun key => (under snapshot [key]).weight).sum = (under snapshot keys).weight := by
  induction keys with
  | nil => simp [under, weight_eq_sum]
  | cons key rest ih =>
    obtain ⟨hfresh, hrest⟩ := List.nodup_cons.mp hnodup
    rw [List.map_cons, List.sum_cons, ih hrest, weight_under_cons hfresh]

/-- Under all the keys that occur are all the validators that have one. -/
theorem weight_under_add_weight_keyless
    (hkeys : ∀ v ∈ snapshot, ∀ key, v.key = some key → key ∈ keys) :
    (under snapshot keys).weight + (keyless snapshot).weight = snapshot.weight := by
  induction snapshot with
  | nil => rfl
  | cons v rest ih =>
    have hsum := ih fun w hw => hkeys w (List.mem_cons_of_mem _ hw)
    cases hkey : v.key with
    | none =>
      have hout : ∀ key ∈ keys, v.key ≠ some key := by simp [hkey]
      have hcons : keyless (v :: rest) = v :: keyless rest := by simp [keyless, hkey]
      rw [under_cons_of_not_mem hout, hcons, weight_cons, weight_cons, ← hsum, Nat.add_left_comm]
    | some key =>
      have hcons : keyless (v :: rest) = keyless rest := by simp [keyless, hkey]
      rw [under_cons_of_mem hkey (hkeys v List.mem_cons_self key hkey), hcons, weight_cons,
        weight_cons, ← hsum, Nat.add_assoc]

end StakeGuard.Snapshot
