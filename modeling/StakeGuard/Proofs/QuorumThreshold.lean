import Mathlib
import StakeGuard.Attestation.Quorum
import StakeGuard.Proofs.CheckedBudget

/-!
# The least weight that a quorum accepts

Comparing products is comparing the signed weight with the quorum's share of the total, which is a
rational number (`Quorum.checkWeight_eq_ok_iff`). Main statement: a quorum in `(0, 1]` accepts the
weights from the share on, rounded up; the products are numbers of 128 bits whatever is compared; and
of the quorum only its value as a fraction matters (`Quorum.least_sufficient_weight`).
-/

namespace StakeGuard.Quorum

variable {q : Quorum} {signed total : UInt64}

/-- The value of a quorum. -/
def fraction (q : Quorum) : ℚ := (q.num.toNat : ℚ) / q.den.toNat

/-- Weights are compared as before, but there is no answer where a product is no number of 128 bits. -/
def checkWeight? (q : Quorum) (signed total : UInt64) : Option (Except AttestationError Unit) := do
  let scaledSigned ← Amount.mul? signed q.den
  let scaledTotal ← Amount.mul? total q.num
  return if scaledTotal > scaledSigned then .error (.insufficientWeight signed total q.num q.den)
    else .ok ()

/-- The comparison needs no checks: two products of words fit 128 bits. -/
theorem checkWeight?_eq (q : Quorum) (signed total : UInt64) :
    q.checkWeight? signed total = some (q.checkWeight signed total) := by
  rw [checkWeight?, Amount.mul?_eq, Amount.mul?_eq]
  rfl

theorem toNat_pos_of_isValid (h : q.isValid = true) :
    0 < q.num.toNat ∧ q.num.toNat ≤ q.den.toNat := by
  simp only [isValid, Bool.and_eq_true, decide_eq_true_eq] at h
  obtain ⟨⟨-, hnum⟩, hle⟩ := h
  exact ⟨Nat.pos_of_ne_zero fun hzero => hnum (UInt64.toNat_inj.mp hzero),
    UInt64.le_iff_toNat_le.mp hle⟩

theorem fraction_mem_of_isValid (h : q.isValid = true) : 0 < q.fraction ∧ q.fraction ≤ 1 := by
  obtain ⟨hnum, hle⟩ := toNat_pos_of_isValid h
  have hden : (0 : ℚ) < q.den.toNat := by exact_mod_cast hnum.trans_le hle
  rw [fraction, div_le_one hden]
  exact ⟨div_pos (by exact_mod_cast hnum) hden, by exact_mod_cast hle⟩

/-- The products compare as the signed weight does with the share of the total. -/
theorem checkWeight_eq_ok_iff (hden : 0 < q.den.toNat) :
    q.checkWeight signed total = .ok () ↔ (total.toNat : ℚ) * q.fraction ≤ signed.toNat := by
  have hden' : (0 : ℚ) < q.den.toNat := by exact_mod_cast hden
  have hproducts : q.checkWeight signed total = .ok () ↔
      total.toNat * q.num.toNat ≤ signed.toNat * q.den.toNat := by
    rw [checkWeight, ← Nat.not_lt]
    split <;> simp_all
  rw [hproducts, fraction, ← mul_div_assoc, div_le_iff₀ hden']
  exact_mod_cast Iff.rfl

/-- A quorum with a positive value has a denominator. -/
theorem toNat_den_pos_of_fraction (h : 0 < q.fraction) : 0 < q.den.toNat := by
  refine Nat.pos_of_ne_zero fun hzero => h.ne' ?_
  rw [fraction, hzero, Nat.cast_zero, div_zero]

theorem checkWeight_eq_error (h : q.checkWeight signed total ≠ .ok ()) :
    q.checkWeight signed total = .error (.insufficientWeight signed total q.num q.den) := by
  unfold checkWeight at h ⊢
  split
  · rfl
  next hle => exact absurd (if_neg hle) h

/-- The least weight that is no less than the share of the total. -/
def leastWeight (q : Quorum) (total : UInt64) : Nat := ⌈(total.toNat : ℚ) * q.fraction⌉₊

/-- A weight is accepted exactly from the least one on. -/
theorem leastWeight_le_iff (hden : 0 < q.den.toNat) :
    q.leastWeight total ≤ signed.toNat ↔ q.checkWeight signed total = .ok () :=
  Nat.ceil_le.trans (checkWeight_eq_ok_iff hden).symm

theorem leastWeight_le_total (h : q.isValid = true) (total : UInt64) :
    q.leastWeight total ≤ total.toNat := by
  refine Nat.ceil_le.mpr (mul_le_of_le_one_right (Nat.cast_nonneg _) ?_)
  exact (fraction_mem_of_isValid h).2

theorem leastWeight_pos (h : q.isValid = true) (htotal : 0 < total.toNat) :
    0 < q.leastWeight total :=
  Nat.ceil_pos.mpr (mul_pos (Nat.cast_pos.mpr htotal) (fraction_mem_of_isValid h).1)

/-- **A quorum is a threshold.** Of every total, a quorum in `(0, 1]` accepts the weights from its share
of the total on, rounded up; that weight is no more than the total, and not zero unless the total is.
Less is refused as insufficient. For whatever words are compared, the products are numbers of 128 bits.
Quorums of one value accept the same. -/
theorem least_sufficient_weight (h : q.isValid = true) (total : UInt64) :
    (∃ least : UInt64,
      least.toNat = ⌈(total.toNat * q.num.toNat : ℚ) / q.den.toNat⌉₊ ∧ least ≤ total ∧
      (0 < total → 0 < least) ∧
      ∀ signed, q.checkWeight signed total =
        if least ≤ signed then .ok ()
        else .error (.insufficientWeight signed total q.num q.den)) ∧
    (∀ (q : Quorum) (signed total : UInt64),
      q.checkWeight? signed total = some (q.checkWeight signed total)) ∧
    ∀ q' : Quorum, q'.fraction = q.fraction → ∀ signed,
      (q'.checkWeight signed total = .ok () ↔ q.checkWeight signed total = .ok ()) := by
  have hpos := (fraction_mem_of_isValid h).1
  have hden := toNat_den_pos_of_fraction hpos
  refine ⟨?threshold, checkWeight?_eq, fun q' hq' signed => ?value⟩
  case threshold =>
    have hle := leastWeight_le_total h total
    have hword : (UInt64.ofNat (q.leastWeight total)).toNat = q.leastWeight total := by
      rw [UInt64.toNat_ofNat']
      exact Nat.mod_eq_of_lt (hle.trans_lt total.toNat_lt)
    refine ⟨.ofNat (q.leastWeight total), ?_, ?_, fun htotal => ?_, fun signed => ?_⟩
    · rw [hword, leastWeight, fraction, mul_div_assoc]
    · rwa [UInt64.le_iff_toNat_le, hword]
    · rw [UInt64.lt_iff_toNat_lt, hword]
      exact leastWeight_pos h (UInt64.lt_iff_toNat_lt.mp htotal)
    · have haccepts : .ofNat (q.leastWeight total) ≤ signed ↔
          q.checkWeight signed total = .ok () := by
        rw [UInt64.le_iff_toNat_le, hword, leastWeight_le_iff hden]
      split
      next hheavy => exact haccepts.mp hheavy
      next hlight => exact checkWeight_eq_error (haccepts.not.mp hlight)
  case value =>
    have hden' := toNat_den_pos_of_fraction (hq'.symm ▸ hpos : 0 < q'.fraction)
    rw [checkWeight_eq_ok_iff hden', checkWeight_eq_ok_iff hden, hq']

/-- The share of 67 in 100 of the largest total is no whole number, so it is rounded up; so is that of
134 in 200. -/
theorem least_of_largest_total :
    isValid ⟨67, 100⟩ = true ∧
      (∀ signed, checkWeight ⟨67, 100⟩ signed 18446744073709551615 = .ok () ↔
        12359318529385399583 ≤ signed) ∧
      checkWeight ⟨134, 200⟩ 12359318529385399583 18446744073709551615 = .ok () := by
  have hvalid : isValid ⟨67, 100⟩ = true := by decide
  obtain ⟨⟨least, hleast, -, -, hverdict⟩, -, hvalue⟩ :=
    least_sufficient_weight hvalid 18446744073709551615
  have hceil : least.toNat = 12359318529385399583 := by
    rw [hleast, Nat.ceil_eq_iff (by decide)]
    simp only [UInt64.reduceToNat]
    norm_num
  obtain rfl : least = 12359318529385399583 := UInt64.toNat_inj.mp hceil
  have haccepts : ∀ signed, checkWeight ⟨67, 100⟩ signed 18446744073709551615 = .ok () ↔
      12359318529385399583 ≤ signed := by
    intro signed
    rw [hverdict]
    split <;> simp_all
  have hdoubled : fraction ⟨134, 200⟩ = fraction ⟨67, 100⟩ := by
    simp only [fraction, UInt64.reduceToNat]
    norm_num
  exact ⟨hvalid, haccepts, (hvalue _ hdoubled _).mpr ((haccepts _).mpr (UInt64.le_refl _))⟩

end StakeGuard.Quorum
