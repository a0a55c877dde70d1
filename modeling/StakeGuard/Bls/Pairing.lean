import StakeGuard.Bls.Curve
import StakeGuard.Bls.Tower

/-!
# The pairing

The pairing of points of the two subgroups of prime order, up to a fixed exponent prime to that
order, which is all that a test for one needs. A loop over the bits of the curve's parameter
multiplies the lines met while that multiple of the second point is computed; raising to a fixed
power then maps the product into the roots of unity of prime order.
-/

namespace StakeGuard.Bls.Pairing

/-- The absolute value of the curve's parameter, which itself is negative. -/
def parameter : Nat := 0xd201000000010000

/-- The line of the given slope through a point of the twisted curve, evaluated at a point over the
base field; factors that the final power removes are left out. -/
def line (slope xt yt : Fp2) (x y : Fp) : Fp12 :=
  { c0 := ⟨slope * xt - yt, -Fp2.scale x slope, 0⟩
    c1 := ⟨0, ⟨y, 0⟩, 0⟩ }

/-- The third point on the line of the given slope through `(x₁, y₁)` and a point with first
coordinate `x₂`, mirrored. -/
def chord (slope x₁ y₁ x₂ : Fp2) : Fp2 × Fp2 :=
  let x := slope * slope - x₁ - x₂
  (x, slope * (x₁ - x) - y₁)

/-- What the loop carries: the product of lines so far, and the multiple reached. -/
structure Accumulator where
  product : Fp12
  x : Fp2
  y : Fp2

/-- The step of the loop for every digit: the multiple is doubled, and the tangent at it is multiplied
into the square of the product. -/
def Accumulator.double (px py : Fp) (s : Accumulator) : Accumulator :=
  let xx := s.x * s.x
  let slope := (xx + xx + xx) * (s.y + s.y).inv
  let (x, y) := chord slope s.x s.y s.x
  { product := s.product * s.product * line slope s.x s.y px py, x, y }

/-- The further step for a digit one: the second point is added to the multiple, and the line through
both is multiplied into the product. -/
def Accumulator.add (px py : Fp) (qx qy : Fp2) (s : Accumulator) : Accumulator :=
  let slope := (s.y - qy) * (s.x - qx).inv
  let (x, y) := chord slope s.x s.y qx
  { product := s.product * line slope s.x s.y px py, x, y }

/-- The product of lines for two points; one if either is the point at infinity. -/
def lines (p : G1) (q : G2) : Fp12 :=
  match p.toAffine?, q.toAffine? with
  | some (px, py), some (qx, qy) =>
    let step (s : Accumulator) (digit : Bool) : Accumulator :=
      if digit then (s.double px py).add px py qx qy else s.double px py
    -- the leading digit stands for the point itself, at which the loop starts
    ((binaryDigits parameter).tail.foldl step ⟨1, qx, qy⟩).product
  | _, _ => 1

/-- The power by the curve's parameter of an element whose inverse is its conjugate. -/
def powParameter (a : Fp12) : Fp12 := (a.pow parameter).conj

/-- The part of the final power that leaves elements whose inverse is their conjugate. -/
def easyPower (f : Fp12) : Fp12 :=
  let unitary := f.conj * f.inv
  unitary.frobenius.frobenius * unitary

/-- The final power: three times the exponent that maps onto the roots of unity of prime order. -/
def finalPower (f : Fp12) : Fp12 :=
  let a := easyPower f
  let b := powParameter a * a.conj
  let c := powParameter b * b.conj
  let d := powParameter c * c.frobenius
  let e := powParameter (powParameter d) * d.frobenius.frobenius * d.conj
  e * (a * a * a)

/-- Whether the pairings of the given pairs of points multiply to one. -/
def productIsOne (pairs : List (G1 × G2)) : Bool :=
  finalPower ((pairs.map fun (p, q) => lines p q).foldl (· * ·) 1) = 1

end StakeGuard.Bls.Pairing
