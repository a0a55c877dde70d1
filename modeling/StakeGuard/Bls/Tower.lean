import StakeGuard.Bls.Field

/-!
# The extension of degree twelve

`Fp6` adjoins to `Fp2` a cube root `v` of `1 + i`, and `Fp12` adjoins to `Fp6` a square root `w` of
`v`. Pairings take their values in `Fp12`.
-/

namespace StakeGuard.Bls

/-- The product with `1 + i`, the element whose roots are adjoined. -/
def Fp2.mulTwist (a : Fp2) : Fp2 := ⟨a.re - a.im, a.re + a.im⟩

/-- `c0 + c1·v + c2·v²`, where `v³ = 1 + i`. -/
structure Fp6 where
  c0 : Fp2
  c1 : Fp2
  c2 : Fp2
deriving DecidableEq

namespace Fp6

instance : Zero Fp6 := ⟨⟨0, 0, 0⟩⟩

instance : One Fp6 := ⟨⟨1, 0, 0⟩⟩

/-- The sum, coefficient by coefficient. -/
protected def add (a b : Fp6) : Fp6 := ⟨a.c0 + b.c0, a.c1 + b.c1, a.c2 + b.c2⟩

/-- The difference, coefficient by coefficient. -/
protected def sub (a b : Fp6) : Fp6 := ⟨a.c0 - b.c0, a.c1 - b.c1, a.c2 - b.c2⟩

/-- The product, with the cross terms read off products of sums. -/
protected def mul (a b : Fp6) : Fp6 :=
  let p0 := a.c0 * b.c0
  let p1 := a.c1 * b.c1
  let p2 := a.c2 * b.c2
  { c0 := p0 + ((a.c1 + a.c2) * (b.c1 + b.c2) - p1 - p2).mulTwist
    c1 := (a.c0 + a.c1) * (b.c0 + b.c1) - p0 - p1 + p2.mulTwist
    c2 := (a.c0 + a.c2) * (b.c0 + b.c2) - p0 - p2 + p1 }

instance : Add Fp6 := ⟨Fp6.add⟩

instance : Sub Fp6 := ⟨Fp6.sub⟩

instance : Neg Fp6 := ⟨fun a => ⟨-a.c0, -a.c1, -a.c2⟩⟩

instance : Mul Fp6 := ⟨Fp6.mul⟩

/-- The product with `v`, which moves every coefficient up by one. -/
def mulV (a : Fp6) : Fp6 := ⟨a.c2.mulTwist, a.c0, a.c1⟩

/-- The product with an element of `Fp2`. -/
def scale (k : Fp2) (a : Fp6) : Fp6 := ⟨k * a.c0, k * a.c1, k * a.c2⟩

/-- The inverse of a non-zero element, and zero for zero. -/
def inv (a : Fp6) : Fp6 :=
  let t0 := a.c0 * a.c0 - (a.c1 * a.c2).mulTwist
  let t1 := (a.c2 * a.c2).mulTwist - a.c0 * a.c1
  let t2 := a.c1 * a.c1 - a.c0 * a.c2
  scale (a.c0 * t0 + (a.c2 * t1 + a.c1 * t2).mulTwist).inv ⟨t0, t1, t2⟩

end Fp6

/-- `c0 + c1·w`, where `w² = v`. -/
structure Fp12 where
  c0 : Fp6
  c1 : Fp6
deriving DecidableEq

namespace Fp12

instance : One Fp12 := ⟨⟨1, 0⟩⟩

/-- The product, with the cross term read off a product of sums. -/
protected def mul (a b : Fp12) : Fp12 :=
  let p0 := a.c0 * b.c0
  let p1 := a.c1 * b.c1
  ⟨p0 + p1.mulV, (a.c0 + a.c1) * (b.c0 + b.c1) - p0 - p1⟩

instance : Mul Fp12 := ⟨Fp12.mul⟩

/-- The element with `w` replaced by `-w`. -/
def conj (a : Fp12) : Fp12 := ⟨a.c0, -a.c1⟩

/-- The inverse of a non-zero element, and zero for zero. -/
def inv (a : Fp12) : Fp12 :=
  let n := (a.c0 * a.c0 - (a.c1 * a.c1).mulV).inv
  ⟨a.c0 * n, -(a.c1 * n)⟩

/-- A power, by repeated squaring. -/
def pow (a : Fp12) (n : Nat) : Fp12 := power 1 a n

/-- The `fieldPrime`-th power of `w` divided by `w`: a sixth root of unity times a power of the
twist, an element of `Fp2`. -/
def frobeniusOfW : Fp2 := (Fp2.ofNat 1 1).pow ((fieldPrime - 1) / 6)

/-- The factors of `frobenius` for the first five powers of `w`. -/
def frobeniusOfPowers : Fp2 × Fp2 × Fp2 × Fp2 × Fp2 :=
  let g := frobeniusOfW
  (g, g * g, g * g * g, g * g * g * g, g * g * g * g * g)

/-- The `fieldPrime`-th power. It conjugates the coefficients in `Fp2` and multiplies that of `wⁿ`
by `frobeniusOfWⁿ`. -/
def frobenius (a : Fp12) : Fp12 :=
  let (g1, g2, g3, g4, g5) := frobeniusOfPowers
  { c0 := ⟨a.c0.c0.conj, g2 * a.c0.c1.conj, g4 * a.c0.c2.conj⟩
    c1 := ⟨g1 * a.c1.c0.conj, g3 * a.c1.c1.conj, g5 * a.c1.c2.conj⟩ }

end Fp12

end StakeGuard.Bls
