import StakeGuard.Amount
import StakeGuard.Ordered
import StakeGuard.Validator

/-!
# Canonical sets

The signer positions of a snapshot. Validators with one public key share one position, whose weight
is the sum of theirs; positions are in the order of the keys' bytes, so all who hold the same
snapshot number the signers alike. Validators without a key have no position, but their weight counts
in the total. A snapshot that names a node twice is refused.
-/

namespace StakeGuard

/-- A signer position: a public key, the weight of all who share it, and their nodes in ascending order.
-/
structure CanonicalValidator where
  key : PublicKey
  weight : UInt64
  nodes : List NodeId
deriving DecidableEq

/-- The signer positions of a snapshot and the weight of all its validators. -/
structure CanonicalSet where
  validators : List CanonicalValidator
  totalWeight : UInt64
deriving DecidableEq

namespace CanonicalSet

/-- The number of signer positions. -/
def size (c : CanonicalSet) : Nat := c.validators.length

/-- The entry at a position. -/
def get? (c : CanonicalSet) (index : Nat) : Option CanonicalValidator := c.validators[index]?

/-- The position at which a node signs. -/
def positionOf? (c : CanonicalSet) (node : NodeId) : Option Nat :=
  c.validators.findIdx? fun v => (bisect (compare · node) v.nodes).isSome

/-- The position of a public key, by bisection of the entries. -/
def positionOfKey? (c : CanonicalSet) (key : PublicKey) : Option Nat :=
  bisect (compare ·.key key) c.validators

/-- Adds a node's weight to the entry of its key, among entries in ascending order of keys. -/
def enter (key : PublicKey) (node : NodeId) (weight : UInt64) :
    List CanonicalValidator → Except ValidatorError (List CanonicalValidator)
  | [] => .ok [⟨key, weight, [node]⟩]
  | v :: rest =>
    match compare key v.key with
    | .lt => .ok (⟨key, weight, [node]⟩ :: v :: rest)
    | .eq =>
      match Amount.add? v.weight weight with
      | none => .error (.weightOverflow v.weight weight)
      | some weight => .ok ({ v with weight, nodes := insertAscending node v.nodes } :: rest)
    | .gt => (enter key node weight rest).map (v :: ·)

/-- What is known after a part of a snapshot. -/
structure Tally where
  seen : List NodeId
  set : CanonicalSet

/-- Takes one more validator into account. A node seen before is refused before any sum is taken, and
the sum of all weights is checked before that of its entry. -/
def Tally.add (t : Tally) (v : Validator) : Except ValidatorError Tally :=
  if v.node ∈ t.seen then .error (.duplicateIdentity v.node)
  else
    match Amount.add? t.set.totalWeight v.weight with
    | none => .error (.weightOverflow t.set.totalWeight v.weight)
    | some totalWeight =>
      let seen := v.node :: t.seen
      match v.key with
      | none => .ok { seen, set := { t.set with totalWeight } }
      | some key =>
        (enter key v.node v.weight t.set.validators).map fun validators =>
          { seen, set := { validators, totalWeight } }

/-- The canonical set of a snapshot, whatever the order in which the validators are listed. -/
def ofSnapshot (snapshot : Snapshot) : Except ValidatorError CanonicalSet :=
  (snapshot.foldlM Tally.add ⟨[], [], 0⟩).map (·.set)

/-- Whether a node is in a snapshot without a key. A node that is not in the snapshot at all is not at
fault. -/
def lacksKey (snapshot : Snapshot) (node : NodeId) : Bool :=
  snapshot.any fun v => v.node = node && v.key.isNone

/-- The canonical set of a snapshot in which every participant that is listed has a key. -/
def ofParticipants (snapshot : Snapshot) (participants : List NodeId) :
    Except ValidatorError CanonicalSet :=
  match participants.find? (lacksKey snapshot) with
  | some node => .error (.missingPublicKey node)
  | none => ofSnapshot snapshot

end CanonicalSet

end StakeGuard
