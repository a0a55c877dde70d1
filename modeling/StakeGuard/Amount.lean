/-!
# Amounts

Weights, byte counts and heights are 64-bit words. Sums that may not fit are taken with `add?`, which
answers only where the exact sum does (`add?_eq_some_iff`).
-/

namespace StakeGuard.Amount

/-- The number of 64-bit words. -/
def bound : Nat := 0x10000000000000000

/-- The sum of a list of numbers, exact because it is not taken in words. -/
def sum : List Nat → Nat
  | [] => 0
  | n :: rest => n + sum rest

/-- The exact sum of two words, if it is a word. -/
def add? (a b : UInt64) : Option UInt64 :=
  if a.toNat + b.toNat < bound then some (a + b) else none

/-- The smaller of two words. -/
def min (a b : UInt64) : UInt64 := if a ≤ b then a else b

/-- The difference of two words, zero where it would be negative. -/
def monus (a b : UInt64) : UInt64 := if b ≤ a then a - b else 0

/-- The sum of two words, the largest word where it does not fit. -/
def addCapped (a b : UInt64) : UInt64 := (add? a b).getD (.ofNat (bound - 1))

/-- Every word is a number below the bound. -/
theorem toNat_lt_bound (a : UInt64) : a.toNat < bound := a.toNat_lt

theorem toNat_add_of_lt {a b : UInt64} (h : a.toNat + b.toNat < bound) :
    (a + b).toNat = a.toNat + b.toNat := by
  rw [UInt64.toNat_add]
  exact Nat.mod_eq_of_lt h

/-- The checked sum is a word exactly when that word is the sum of the two as numbers; whatever is said
about overflow comes down to this. -/
theorem add?_eq_some_iff {a b c : UInt64} :
    add? a b = some c ↔ c.toNat = a.toNat + b.toNat := by
  have hc := c.toNat_lt
  unfold add? bound
  constructor
  · intro h
    split at h
    · next hlt => cases h; exact toNat_add_of_lt hlt
    · cases h
  · intro h
    rw [if_pos (by omega)]
    congr 1
    apply UInt64.toNat_inj.mp
    rw [UInt64.toNat_add, h, Nat.mod_eq_of_lt (by omega)]

theorem add_eq_of_add? {a b c : UInt64} (h : add? a b = some c) : a + b = c := by
  unfold add? at h
  split at h
  · exact Option.some.inj h
  · cases h

/-- There is no checked sum exactly when the numbers add up to the bound or more. -/
theorem add?_eq_none_iff {a b : UInt64} : add? a b = none ↔ bound ≤ a.toNat + b.toNat := by
  simp [add?]

theorem toNat_min (a b : UInt64) : (min a b).toNat = Nat.min a.toNat b.toNat := by
  unfold min
  split
  · next h => exact (Nat.min_eq_left (UInt64.le_iff_toNat_le.mp h)).symm
  · next h =>
    have := UInt64.lt_iff_toNat_lt.mp (UInt64.not_le.mp h)
    exact (Nat.min_eq_right (by omega)).symm

theorem toNat_min_le_left (a b : UInt64) : (min a b).toNat ≤ a.toNat := by
  rw [toNat_min]
  exact Nat.min_le_left _ _

theorem toNat_min_le_right (a b : UInt64) : (min a b).toNat ≤ b.toNat := by
  rw [toNat_min]
  exact Nat.min_le_right _ _

theorem toNat_sub_of_le {a b : UInt64} (h : b.toNat ≤ a.toNat) :
    (a - b).toNat = a.toNat - b.toNat :=
  UInt64.toNat_sub_of_le _ _ (UInt64.le_iff_toNat_le.mpr h)

/-- As numbers, the difference of words is truncated subtraction. -/
theorem toNat_monus (a b : UInt64) : (monus a b).toNat = a.toNat - b.toNat := by
  unfold monus
  split
  · next h => rw [UInt64.toNat_sub_of_le _ _ h]
  · next h =>
    have := UInt64.lt_iff_toNat_lt.mp (UInt64.not_le.mp h)
    have hz : (0 : UInt64).toNat = 0 := rfl
    omega

end StakeGuard.Amount
