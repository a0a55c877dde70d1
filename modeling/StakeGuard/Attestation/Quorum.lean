import StakeGuard.Attestation.Error

/-!
# Quorums

The fraction of all stake that must have signed, in `(0, 1]`. Weights are compared with it by exact
products, so nothing is rounded and nothing overflows.
-/

namespace StakeGuard

/-- A fraction of the total weight. It may be any two numbers until it is checked. -/
structure Quorum where
  num : UInt64
  den : UInt64
deriving DecidableEq

namespace Quorum

/-- The first whole percentage above two thirds. -/
def default : Quorum := ⟨67, 100⟩

instance : Inhabited Quorum := ⟨default⟩

/-- Whether the fraction lies in `(0, 1]`. -/
def isValid (q : Quorum) : Bool := q.den ≠ 0 && q.num ≠ 0 && q.num ≤ q.den

/-- Refuses a fraction outside `(0, 1]`. -/
def validate (q : Quorum) : Except AttestationError Unit :=
  if q.isValid then .ok () else .error (.invalidQuorum q.num q.den)

theorem validate_eq_ok_iff {q : Quorum} : q.validate = .ok () ↔ q.isValid = true := by
  unfold validate
  cases q.isValid <;> simp

/-- Refuses a signed weight below the fraction of the total. -/
def checkWeight (q : Quorum) (signed total : UInt64) : Except AttestationError Unit :=
  if total.toNat * q.num.toNat > signed.toNat * q.den.toNat then
    .error (.insufficientWeight signed total q.num q.den)
  else .ok ()

end Quorum

end StakeGuard
