import Mathlib.Algebra.BigOperators.Group.Finset.Basic
import Mathlib.Algebra.BigOperators.Group.List.Basic
import Mathlib.Algebra.Order.BigOperators.Group.Finset
import Mathlib.Algebra.Order.Ring.Nat
import Mathlib.Data.List.Perm.Basic
import StakeGuard.Amount
import StakeGuard.Table

/-!
# Sums over tables

The sum of what the values of a table amount to, before and after one value is written or erased. It
is also a sum over keys (`Table.sum_eq_sum_of_subset`): a key without a value amounts to nothing.
-/

namespace StakeGuard

theorem Amount.sum_eq_list_sum (xs : List Nat) : Amount.sum xs = xs.sum := by
  induction xs with
  | nil => rfl
  | cons n rest ih => rw [Amount.sum, ih, List.sum_cons]

namespace Table

variable {K V : Type} (f : V → Nat)

/-- The sum over all values of what each amounts to. -/
def sum (t : Table K V) : Nat := (t.entries.map (f ·.2)).sum

variable [DecidableEq K] {t : Table K V} {k : K} {v : V}

theorem sum_insert (t : Table K V) (k : K) (v : V) :
    (t.insert k v).sum f = f v + (t.erase k).sum f := by
  rw [sum, entries_insert, List.map_cons, List.sum_cons, sum]

theorem add_sum_erase (h : t.get? k = some v) : f v + (t.erase k).sum f = t.sum f := by
  rw [sum, sum, ((entries_perm_cons_erase h).map (f ·.2)).sum_nat, List.map_cons, List.sum_cons]

theorem sum_erase_of_none (h : t.get? k = none) : (t.erase k).sum f = t.sum f := by
  rw [sum, entries_erase_of_none h, sum]

theorem le_sum (h : t.get? k = some v) : f v ≤ t.sum f := by
  rw [← add_sum_erase f h]
  exact Nat.le_add_right _ _

/-! ## Sums over keys -/

/-- What the value of a key amounts to, nothing where it has none. -/
def amount (t : Table K V) (k : K) : Nat := (t.get? k).elim 0 f

theorem sum_eq_sum_keys (t : Table K V) : t.sum f = ∑ k ∈ t.keys.toFinset, t.amount f k := by
  have hvalues : t.entries.map (f ·.2) = t.keys.map (t.amount f) := by
    unfold keys
    rw [List.map_map]
    refine List.map_congr_left fun e he => ?_
    have hget : t.get? e.1 = some e.2 := mem_entries_iff.mp he
    simp [amount, hget]
  unfold sum
  rw [hvalues, List.sum_toFinset _ t.keys_nodup]

/-- The sum over a table is one over any keys that include its own. -/
theorem sum_eq_sum_of_subset {t : Table K V} {keys : Finset K} (h : t.keys.toFinset ⊆ keys) :
    t.sum f = ∑ k ∈ keys, t.amount f k := by
  rw [sum_eq_sum_keys]
  refine Finset.sum_subset h fun k _ hk => ?_
  have hnone : t.get? k = none := get?_eq_none_iff.mpr fun hmem => hk (List.mem_toFinset.mpr hmem)
  simp [amount, hnone]

/-- Any keys amount to no more than the whole table. -/
theorem sum_amount_le (t : Table K V) (keys : Finset K) : ∑ k ∈ keys, t.amount f k ≤ t.sum f := by
  have hall : t.keys.toFinset ⊆ keys ∪ t.keys.toFinset := Finset.subset_union_right
  rw [sum_eq_sum_of_subset f hall]
  exact Finset.sum_le_sum_of_subset Finset.subset_union_left

end Table

end StakeGuard
