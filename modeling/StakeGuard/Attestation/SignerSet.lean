import StakeGuard.Bytes

/-!
# Signer sets

Which of the positions of a canonical set signed. The encoded form is a big-endian number of exactly
as many bytes as the positions need, with one bit for each position; a bit beyond the positions is
refused.
-/

namespace StakeGuard

/-- A set of positions below `size`: one flag for each, the first position first. -/
structure SignerSet where
  flags : List Bool
deriving DecidableEq

namespace SignerSet

/-- Why bytes encode no signer set, or a position cannot be added to one. -/
inductive Fault where
  | byteCount (found size expected : Nat)
  | extraBit (position size : Nat)
  | outOfRange (position size : Nat)
  | repeated (position : Nat)
deriving DecidableEq

/-- The text of a fault. -/
def Fault.message : Fault → String
  | byteCount found size expected => s!"{found} bytes for {size} signers, expected {expected}"
  | extraBit position size => s!"bit {position} set beyond {size} signers"
  | outOfRange position size => s!"signer {position} out of range for {size} signers"
  | repeated position => s!"signer {position} appears twice"

/-- The set of no positions below `size`. -/
def empty (size : Nat) : SignerSet := ⟨List.replicate size false⟩

/-- The number of positions, signing or not. -/
def size (s : SignerSet) : Nat := s.flags.length

/-- Whether a position is in the set; none beyond the size is. -/
def contains (s : SignerSet) (position : Nat) : Bool := s.flags[position]?.getD false

/-- The positions in the set, in ascending order. -/
def positions (s : SignerSet) : List Nat := (List.range s.size).filter s.contains

/-- The number of positions in the set. -/
def count (s : SignerSet) : Nat := s.flags.count true

/-- Whether no position is in the set. -/
def isEmpty (s : SignerSet) : Bool := !s.flags.any id

/-- Adds a position, which must be below the size; one that is there already stays. -/
def insert (s : SignerSet) (position : Nat) : Except Fault SignerSet :=
  if position < s.size then .ok ⟨s.flags.set position true⟩
  else .error (.outOfRange position s.size)

/-- The number of bytes in which so many positions are encoded. -/
def encodedLength (size : Nat) : Nat := (size + 7) / 8

/-- The eight bits of a byte, least significant first. -/
def bitsOf (b : UInt8) : List Bool := (List.range 8).map b.toNat.testBit

/-- The byte with the given bits, least significant first. -/
def byteOf (bits : List Bool) : UInt8 :=
  .ofNat (bits.foldr (fun bit n => bit.toNat + 2 * n) 0)

/-- As many bytes as asked for of a list of bits, least significant first. -/
def pack : (count : Nat) → List Bool → Bytes
  | 0, _ => []
  | count + 1, bits => byteOf (bits.take 8) :: pack count (bits.drop 8)

/-- The encoded form of a set, most significant byte first. -/
def encode (s : SignerSet) : Bytes := (pack (encodedLength s.size) s.flags).reverse

/-- The set over `size` positions with the given encoded form. -/
def decode (bytes : Bytes) (size : Nat) : Except Fault SignerSet :=
  if bytes.length ≠ encodedLength size then
    .error (.byteCount bytes.length size (encodedLength size))
  else
    let bits := bytes.reverse.flatMap bitsOf
    match (bits.drop size).findIdx? id with
    | some extra => .error (.extraBit (size + extra) size)
    | none => .ok ⟨bits.take size⟩

end SignerSet

end StakeGuard
