import StakeGuard.Bls.Curve

/-!
# Compressed points

A point is written as its first coordinate, most significant byte first, under three flag bits: the
top bit marks the compressed form, the next the point at infinity, the third the larger of the two
second coordinates. Each point has one accepted form: coordinates must be reduced, and the point at
infinity carries no other bit.
-/

namespace StakeGuard.Bls

namespace G1

/-- The 48-byte form of a point. -/
def encode (p : G1) : FixedBytes 48 :=
  match p.toAffine? with
  | none => .ofNat 48 (3 <<< 382)
  | some (x, y) => .ofNat 48 ((1 <<< 383) + (if y.isLarger then 1 <<< 381 else 0) + x.val)

/-- The point on the curve with the given form, in whatever subgroup it lies. -/
def decode? (form : FixedBytes 48) : Option G1 :=
  let n := Bytes.toNatBE form.bytes
  if !n.testBit 383 then none
  else if n.testBit 382 then if n = 3 <<< 382 then some .infinity else none
  else
    let coordinate := n % (1 <<< 381)
    if coordinate < fieldPrime then
      let x := Fp.ofNat coordinate
      (x * x * x + CurveField.b).sqrt?.map fun y =>
        .affine x (if y.isLarger = n.testBit 381 then y else -y)
    else none

end G1

namespace G2

/-- The 96-byte form of a point, the imaginary part of the coordinate first. -/
def encode (p : G2) : FixedBytes 96 :=
  match p.toAffine? with
  | none => .ofNat 96 (3 <<< 766)
  | some (x, y) =>
    .ofNat 96 ((1 <<< 767) + (if y.isLarger then 1 <<< 765 else 0) + (x.im.val <<< 384)
      + x.re.val)

/-- The point on the curve with the given form, in whatever subgroup it lies. -/
def decode? (form : FixedBytes 96) : Option G2 :=
  let n := Bytes.toNatBE form.bytes
  if !n.testBit 767 then none
  else if n.testBit 766 then if n = 3 <<< 766 then some .infinity else none
  else
    let im := (n >>> 384) % (1 <<< 381)
    let re := n % (1 <<< 384)
    if im < fieldPrime ∧ re < fieldPrime then
      let x := Fp2.ofNat re im
      (x * x * x + CurveField.b).sqrt?.map fun y =>
        .affine x (if y.isLarger = n.testBit 765 then y else -y)
    else none

end G2

end StakeGuard.Bls
