import StakeGuard.Bytes

/-!
# The base field and its quadratic extension

`Fp` is the field of integers modulo the curve's prime; `Fp2` adjoins a square root of `-1`. Both
keep their components reduced by construction, so equality of elements is equality of values.
Square roots are searched by exponentiation and returned only after squaring back
(`Fp.sq_of_sqrt?`, `Fp2.sq_of_sqrt?`).
-/

namespace StakeGuard.Bls

/-- The prime of the base field; it is 3 modulo 4. -/
def fieldPrime : Nat :=
  0x1a0111ea397fe69a4b1ba7b6434bacd764774b84f38512bf6730d2a0f6b0f6241eabfffeb153ffffb9feffffffffaaab

/-- The binary digits of a number, most significant first; zero has the one digit `false`. -/
def binaryDigits (n : Nat) : List Bool := (List.range (n.log2 + 1)).reverse.map n.testBit

/-- `n` copies of `a` joined by `*`, by repeated squaring; `one` for `n = 0`. -/
@[specialize] def power {α : Type} [Mul α] (one a : α) (n : Nat) : α :=
  (binaryDigits n).foldl (fun acc digit => if digit then acc * acc * a else acc * acc) one

theorem fieldPrime_pos : 0 < fieldPrime := by decide

/-- An integer modulo the base field's prime. -/
structure Fp where
  val : Nat
  val_lt : val < fieldPrime
deriving DecidableEq

namespace Fp

/-- The residue of a number. -/
def ofNat (n : Nat) : Fp := ⟨n % fieldPrime, Nat.mod_lt n fieldPrime_pos⟩

instance : Zero Fp := ⟨ofNat 0⟩

instance : One Fp := ⟨ofNat 1⟩

/-- The sum modulo the prime. -/
protected def add (a b : Fp) : Fp := ofNat (a.val + b.val)

/-- The difference modulo the prime, which is added first so that nothing is truncated. -/
protected def sub (a b : Fp) : Fp := ofNat (a.val + (fieldPrime - b.val))

/-- The product modulo the prime. -/
protected def mul (a b : Fp) : Fp := ofNat (a.val * b.val)

instance : Add Fp := ⟨Fp.add⟩

instance : Sub Fp := ⟨Fp.sub⟩

instance : Neg Fp := ⟨fun a => ofNat (fieldPrime - a.val)⟩

instance : Mul Fp := ⟨Fp.mul⟩

instance : Inhabited Fp := ⟨0⟩

/-- A power, by repeated squaring. -/
def pow (a : Fp) (n : Nat) : Fp := power 1 a n

/-- The inverse of a non-zero element, and zero for zero. -/
def inv (a : Fp) : Fp := a.pow (fieldPrime - 2)

/-- One of the two square roots, if there is one. -/
def sqrt? (a : Fp) : Option Fp :=
  let root := a.pow ((fieldPrime + 1) / 4)
  if root * root = a then some root else none

/-- Whether an element is larger than its negative, as numbers below the prime. -/
def isLarger (a : Fp) : Bool := a.val > fieldPrime / 2

theorem sq_of_sqrt? {a root : Fp} (h : a.sqrt? = some root) : root * root = a := by
  unfold sqrt? at h
  simp only at h
  split at h
  · next hr => cases h; exact hr
  · cases h

end Fp

/-- `re + im·i`, where `i * i = -1`. -/
structure Fp2 where
  re : Fp
  im : Fp
deriving DecidableEq

namespace Fp2

/-- The element with the residues of two numbers as its parts. -/
def ofNat (re im : Nat) : Fp2 := ⟨.ofNat re, .ofNat im⟩

instance : Zero Fp2 := ⟨⟨0, 0⟩⟩

instance : One Fp2 := ⟨⟨1, 0⟩⟩

/-- The sum, part by part. -/
protected def add (a b : Fp2) : Fp2 := ⟨a.re + b.re, a.im + b.im⟩

/-- The difference, part by part. -/
protected def sub (a b : Fp2) : Fp2 := ⟨a.re - b.re, a.im - b.im⟩

/-- The product, by `i * i = -1`. -/
protected def mul (a b : Fp2) : Fp2 :=
  ⟨a.re * b.re - a.im * b.im, a.re * b.im + a.im * b.re⟩

instance : Add Fp2 := ⟨Fp2.add⟩

instance : Sub Fp2 := ⟨Fp2.sub⟩

instance : Neg Fp2 := ⟨fun a => ⟨-a.re, -a.im⟩⟩

instance : Mul Fp2 := ⟨Fp2.mul⟩

instance : Inhabited Fp2 := ⟨0⟩

/-- The element with the imaginary part negated, which is also the `fieldPrime`-th power. -/
def conj (a : Fp2) : Fp2 := ⟨a.re, -a.im⟩

/-- The product with an element of the base field. -/
def scale (k : Fp) (a : Fp2) : Fp2 := ⟨k * a.re, k * a.im⟩

/-- A power, by repeated squaring. -/
def pow (a : Fp2) (n : Nat) : Fp2 := power 1 a n

/-- The inverse of a non-zero element, and zero for zero. -/
def inv (a : Fp2) : Fp2 := scale (a.re * a.re + a.im * a.im).inv a.conj

/-- A square root, where the element has one; whether it has is seen by squaring. -/
def rootCandidate (a : Fp2) : Fp2 :=
  let b := a.pow ((fieldPrime - 3) / 4)
  let c := b * a
  let norm := b * c
  if norm = -1 then ⟨-c.im, c.re⟩ else (1 + norm).pow ((fieldPrime - 1) / 2) * c

/-- One of the two square roots, if there is one. -/
def sqrt? (a : Fp2) : Option Fp2 :=
  let root := a.rootCandidate
  if root * root = a then some root else none

/-- Whether an element is larger than its negative, comparing imaginary parts before real ones. -/
def isLarger (a : Fp2) : Bool := if a.im = 0 then a.re.isLarger else a.im.isLarger

/-- The parity of an element: of its real part, or of its imaginary part where the real is zero. -/
def parity (a : Fp2) : Bool := if a.re = 0 then a.im.val % 2 = 1 else a.re.val % 2 = 1

theorem sq_of_sqrt? {a root : Fp2} (h : a.sqrt? = some root) : root * root = a := by
  unfold sqrt? at h
  simp only at h
  split at h
  · next hr => cases h; exact hr
  · cases h

end Fp2

end StakeGuard.Bls
