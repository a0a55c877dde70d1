import StakeGuard.Bls.Field

/-!
# The two curves

Points of `y² = x³ + b` in homogeneous coordinates over any carrier with the ring operations. One
addition law without exceptions serves for distinct points, doublings and the point at infinity,
because neither curve has a point of order two. `G1` is over `Fp` with `b = 4`, `G2` over `Fp2` with
`b = 4 + 4i`.
-/

namespace StakeGuard.Bls

/-- The order of the prime-order subgroups of both curves. -/
def groupOrder : Nat := 0x73eda753299d7d483339d80809a1d80553bda402fffe5bfeffffffff00000001

/-- The ring operations and the two facts about a curve that its points need. -/
class CurveField (F : Type) extends Zero F, One F, Add F, Sub F, Neg F, Mul F where
  /-- Three times the constant term of the curve's equation, times an element. -/
  mulThreeB : F → F
  /-- The constant term of the curve's equation. -/
  b : F
  /-- The inverse of a non-zero element, and zero for zero. -/
  inv : F → F
  isZero : F → Bool

/-- Homogeneous coordinates `(x : y : z)` of a point; `z = 0` is the point at infinity. -/
structure Point (F : Type) where
  x : F
  y : F
  z : F

namespace Point

variable {F : Type} [CurveField F]

/-- The point at infinity, the group's neutral element. -/
def infinity : Point F := ⟨0, 1, 0⟩

/-- The point with the given affine coordinates. -/
def affine (x y : F) : Point F := ⟨x, y, 1⟩

/-- Whether a point is the point at infinity, whatever its first two coordinates. -/
def isInfinity (p : Point F) : Bool := CurveField.isZero p.z

/-- The affine coordinates; none for the point at infinity. -/
def toAffine? (p : Point F) : Option (F × F) :=
  if p.isInfinity then none
  else
    let zInv := CurveField.inv p.z
    some (p.x * zInv, p.y * zInv)

/-- The mirror image, the group's inverse. -/
def neg (p : Point F) : Point F := ⟨p.x, -p.y, p.z⟩

/-- The group law, by formulas valid for every pair of points. -/
@[specialize] def add (p q : Point F) : Point F :=
  let xx := p.x * q.x
  let yy := p.y * q.y
  let zz := p.z * q.z
  let xy := (p.x + p.y) * (q.x + q.y) - xx - yy
  let yz := (p.y + p.z) * (q.y + q.z) - yy - zz
  let xz := (p.x + p.z) * (q.x + q.z) - xx - zz
  let xx3 := xx + xx + xx
  let bzz := CurveField.mulThreeB zz
  let bxz := CurveField.mulThreeB xz
  let s := yy + bzz
  let d := yy - bzz
  { x := xy * d - yz * bxz
    y := d * s + bxz * xx3
    z := s * yz + xx3 * xy }

instance : Mul (Point F) := ⟨add⟩

/-- The point added to itself `n` times over. -/
@[specialize] def multiple (n : Nat) (p : Point F) : Point F := power infinity p n

/-- The sum of points, the point at infinity for none. -/
def sum (ps : List (Point F)) : Point F := ps.foldl add infinity

/-- Whether a point of the curve lies in the subgroup of prime order. -/
def inSubgroup (p : Point F) : Bool := (multiple groupOrder p).isInfinity

end Point

instance : CurveField Fp where
  mulThreeB a :=
    let a2 := a + a
    let a4 := a2 + a2
    a4 + a4 + a4
  b := .ofNat 4
  inv := Fp.inv
  isZero a := a = 0

instance : CurveField Fp2 where
  mulThreeB a :=
    let a2 := a + a
    let a4 := a2 + a2
    let a12 := a4 + a4 + a4
    ⟨a12.re - a12.im, a12.re + a12.im⟩
  b := .ofNat 4 4
  inv := Fp2.inv
  isZero a := a = 0

/-- Points over the base field, where public keys live. -/
abbrev G1 := Point Fp

/-- Points over the quadratic extension, where signatures live. -/
abbrev G2 := Point Fp2

/-- The fixed generator of the subgroup in which public keys lie. -/
def G1.generator : G1 := .affine
  (.ofNat 0x17f1d3a73197d7942695638c4fa9ac0fc3688c4f9774b905a14e3a3f171bac586c55e83ff97a1aeffb3af00adb22c6bb)
  (.ofNat 0x08b3f481e3aaa0f1a09e30ed741d8ae4fcf5e095d5d00af600db18cb2c04b3edd03cc744a2888ae40caa232946c5e7e1)

end StakeGuard.Bls
