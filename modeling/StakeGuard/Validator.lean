import StakeGuard.Amount
import StakeGuard.Identifier
import StakeGuard.Signing

/-!
# Validators

What a validator shows to the outside, and what can go wrong when sets of validators are changed,
scanned or ordered.
-/

namespace StakeGuard

/-- A node with stake, and the public key it signs with, if it has registered one. -/
structure Validator where
  node : NodeId
  key : Option PublicKey
  weight : UInt64
deriving DecidableEq

/-- The validators of a set at one moment. Nothing forbids that a node is listed twice; those who take a
snapshot in check it. -/
abbrev Snapshot := List Validator

/-- The sum of the weights in a snapshot, as an exact number. -/
def Snapshot.weight (snapshot : Snapshot) : Nat := Amount.sum (snapshot.map (·.weight.toNat))

/-- Why a change, a scan or an ordering of validators is refused. The last three tell of storage that
disagrees with itself. -/
inductive ValidatorError where
  | duplicateIdentity (node : NodeId)
  | unknownIdentity (node : NodeId)
  | zeroWeight (node : NodeId)
  | weightOverflow (current delta : UInt64)
  | insufficientStake (node : NodeId) (weight requested : UInt64)
  | missingPublicKey (node : NodeId)
  | totalWeightMismatch (cached scanned : UInt64)
  | corruptLookup (entries slots : Nat)
  | corruptPosition (node : NodeId) (indexed stored : Nat)
deriving DecidableEq

namespace ValidatorError

/-- The name of an error's variant. -/
def kind : ValidatorError → String
  | duplicateIdentity _ => "DuplicateIdentity"
  | unknownIdentity _ => "UnknownIdentity"
  | zeroWeight _ => "ZeroWeight"
  | weightOverflow .. => "WeightOverflow"
  | insufficientStake .. => "InsufficientStake"
  | missingPublicKey _ => "MissingPublicKey"
  | totalWeightMismatch .. => "TotalWeightMismatch"
  | corruptLookup .. => "CorruptLookup"
  | corruptPosition .. => "CorruptPosition"

/-- The text of an error. -/
def message : ValidatorError → String
  | duplicateIdentity node => s!"Validator already in set: {node}"
  | unknownIdentity node => s!"Unknown validator: {node}"
  | zeroWeight node => s!"Zero weight for validator: {node}"
  | weightOverflow current delta => s!"Weight overflow: {current} + {delta} exceeds u64"
  | insufficientStake node weight requested =>
    s!"Insufficient stake on {node}: has {weight}, asked to remove {requested}"
  | missingPublicKey node => s!"Validator has no registered public key: {node}"
  | totalWeightMismatch cached scanned =>
    s!"Cached total weight {cached} differs from scanned sum {scanned}"
  | corruptLookup entries slots => s!"Lookup table has {entries} entries for {slots} slots"
  | corruptPosition node indexed stored =>
    s!"Position index corrupted for {node}: lookup says {indexed}, slot says {stored}"

end ValidatorError

end StakeGuard
