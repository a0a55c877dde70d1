import StakeGuard.Bls.Curve
import StakeGuard.Hash.Sha256

/-!
# Hashing to the second curve

A message is expanded to 256 uniform bytes, read as two elements of `Fp2`, each mapped to a curve
with a three-to-one map onto the curve of signatures; the sum of the two images is multiplied into
the subgroup of prime order.
-/

namespace StakeGuard.Bls.HashToCurve

/-- Bytes derived from a message and a domain tag: blocks numbered from one, each hashing its
number, the tag and the exclusive or of the first block with the block before it. -/
def expandBlocks (seed : Bytes) (tag : Bytes) : (count : Nat) → (number : Nat) → Bytes → Bytes
  | 0, _, _ => []
  | count + 1, number, previous =>
    let mixed := List.zipWith (· ^^^ ·) seed previous
    let next := (Hash.Sha256.digest (mixed ++ UInt8.ofNat number :: tag)).bytes
    next ++ expandBlocks seed tag count (number + 1) next

/-- 256 bytes derived from a message under a domain tag of at most 255 bytes. -/
def expandMessage (tag message : Bytes) : Bytes :=
  let tagged := tag ++ [UInt8.ofNat tag.length]
  let seed := Hash.Sha256.digest
    (List.replicate 64 0 ++ message ++ Bytes.ofNatBE 2 256 ++ 0 :: tagged)
  expandBlocks seed.bytes tagged 8 1 (List.replicate 32 0)

/-- The element whose parts are the two 64-byte numbers at the start. -/
def fieldElement (bytes : Bytes) : Fp2 :=
  .ofNat (Bytes.toNatBE (bytes.take 64)) (Bytes.toNatBE ((bytes.drop 64).take 64))

/-- Coefficients `y² = x³ + a·x + b` of the curve on which elements are mapped first. -/
def isogenousA : Fp2 := .ofNat 0 240

/-- The constant term of the same curve. -/
def isogenousB : Fp2 := .ofNat 1012 1012

/-- A fixed element, not a square, that the map multiplies by squares. -/
def nonSquare : Fp2 := -.ofNat 2 1

/-- A point of the isogenous curve for each field element. One of two candidate first coordinates
has a point above it, and the point's sign is that of the element. -/
def mapToIsogenous (u : Fp2) : Fp2 × Fp2 :=
  let curve (x : Fp2) : Fp2 := x * x * x + isogenousA * x + isogenousB
  let zuu := nonSquare * u * u
  let d := zuu * zuu + zuu
  let x₁ :=
    if d = 0 then isogenousB * (nonSquare * isogenousA).inv
    else -isogenousB * isogenousA.inv * (1 + d.inv)
  let x₂ := zuu * x₁
  -- `curve x₂` is `curve x₁` times a non-square, so it has a root where the other has none
  let (x, y) :=
    match (curve x₁).sqrt? with
    | some y => (x₁, y)
    | none => (x₂, (curve x₂).rootCandidate)
  (x, if y.parity = u.parity then y else -y)

/-- The value of a polynomial given by its coefficients, constant term first. -/
def evaluate (coefficients : List Fp2) (x : Fp2) : Fp2 :=
  coefficients.foldr (fun c acc => c + x * acc) 0

/-- Numerator of the first coordinate of the map onto the curve of signatures. -/
def xNumerator : List Fp2 := [
  .ofNat
    0x5c759507e8e333ebb5b7a9a47d7ed8532c52d39fd3a042a88b58423c50ae15d5c2638e343d9c71c6238aaaaaaaa97d6
    0x5c759507e8e333ebb5b7a9a47d7ed8532c52d39fd3a042a88b58423c50ae15d5c2638e343d9c71c6238aaaaaaaa97d6,
  .ofNat
    0
    0x11560bf17baa99bc32126fced787c88f984f87adf7ae0c7f9a208c6b4f20a4181472aaa9cb8d555526a9ffffffffc71a,
  .ofNat
    0x11560bf17baa99bc32126fced787c88f984f87adf7ae0c7f9a208c6b4f20a4181472aaa9cb8d555526a9ffffffffc71e
    0x8ab05f8bdd54cde190937e76bc3e447cc27c3d6fbd7063fcd104635a790520c0a395554e5c6aaaa9354ffffffffe38d,
  .ofNat
    0x171d6541fa38ccfaed6dea691f5fb614cb14b4e7f4e810aa22d6108f142b85757098e38d0f671c7188e2aaaaaaaa5ed1
    0]

/-- Denominator of the first coordinate of that map. -/
def xDenominator : List Fp2 := [-.ofNat 0 72, .ofNat 12 0 - .ofNat 0 12, 1]

/-- Numerator of the factor by which the second coordinate is multiplied. -/
def yNumerator : List Fp2 := [
  .ofNat
    0x1530477c7ab4113b59a4c18b076d11930f7da5d4a07f649bf54439d87d27e500fc8c25ebf8c92f6812cfc71c71c6d706
    0x1530477c7ab4113b59a4c18b076d11930f7da5d4a07f649bf54439d87d27e500fc8c25ebf8c92f6812cfc71c71c6d706,
  .ofNat
    0
    0x5c759507e8e333ebb5b7a9a47d7ed8532c52d39fd3a042a88b58423c50ae15d5c2638e343d9c71c6238aaaaaaaa97be,
  .ofNat
    0x11560bf17baa99bc32126fced787c88f984f87adf7ae0c7f9a208c6b4f20a4181472aaa9cb8d555526a9ffffffffc71c
    0x8ab05f8bdd54cde190937e76bc3e447cc27c3d6fbd7063fcd104635a790520c0a395554e5c6aaaa9354ffffffffe38f,
  .ofNat
    0x124c9ad43b6cf79bfbf7043de3811ad0761b0f37a1e26286b0e977c69aa274524e79097a56dc4bd9e1b371c71c718b10
    0]

/-- Denominator of the same factor. -/
def yDenominator : List Fp2 := [-.ofNat 432 432, -.ofNat 0 216, .ofNat 18 0 - .ofNat 0 18, 1]

/-- The image on the curve of signatures of a point of the isogenous curve. -/
def fromIsogenous (x y : Fp2) : G2 :=
  let xd := evaluate xDenominator x
  let yd := evaluate yDenominator x
  let z := xd * yd
  if z = 0 then .infinity
  else ⟨evaluate xNumerator x * yd, y * evaluate yNumerator x * xd, z⟩

/-- A multiple of the order of the curve modulo its subgroup of prime order. -/
def cofactor : Nat :=
  0xbc69f08f2ee75b3584c6a0ea91b352888e2a8e9145ad7689986ff031508ffe1329c2f178731db956d82bf015d1212b02ec0ec69d7477c1ae954cbc06689f6a359894c0adebbf6b4e8020005aaa95551

/-- The point of the subgroup of prime order that a message stands for. -/
def hash (tag message : Bytes) : G2 :=
  let bytes := expandMessage tag message
  let image (u : Fp2) : G2 :=
    let (x, y) := mapToIsogenous u
    fromIsogenous x y
  (image (fieldElement bytes) |>.add (image (fieldElement (bytes.drop 128)))).multiple cofactor

end StakeGuard.Bls.HashToCurve
