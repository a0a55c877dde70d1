import StakeGuard.Amount
import StakeGuard.Table
import StakeGuard.Validator

/-!
# Validator sets

The stake of one scope: records in consecutive slots, a table from nodes to slots, and the cached
total of all weights. A removed record's slot is taken over by the last one, so every change touches
at most two slots. The three parts are plain data, so that states in which they disagree can be
expressed, and `check` finds any disagreement; the changes keep them in step.
-/

namespace StakeGuard

/-- A validator as stored, with the transaction that staked it and the slot it stands in. -/
structure ValidatorRecord extends Validator where
  tx : Option TxId
  position : Nat
deriving DecidableEq

/-- The validators of one scope as stored: the records by slot, the slot of each node, and the total
weight. -/
structure ValidatorSet where
  records : List ValidatorRecord
  positions : Table NodeId Nat
  totalWeight : UInt64
deriving DecidableEq

/-- What a change of a validator set amounts to for those who follow it. -/
inductive StakeEvent where
  | added (node : NodeId) (key : Option PublicKey) (weight : UInt64)
  | removed (node : NodeId) (weight : UInt64)
  | reweighted (node : NodeId) (old new : UInt64)
deriving DecidableEq

/-- A change that is asked of a validator set. -/
inductive StakeChange where
  | add (node : NodeId) (key : Option PublicKey) (tx : Option TxId) (weight : UInt64)
  | remove (node : NodeId)
  | setWeight (node : NodeId) (weight : UInt64)
  | addWeight (node : NodeId) (delta : UInt64)
  | removeWeight (node : NodeId) (delta : UInt64)
deriving DecidableEq

/-- The list without the element at an index, whose place the last element takes. -/
def swapRemove {α : Type} (xs : List α) (index : Nat) : List α :=
  match xs.getLast? with
  | none => []
  | some last => (xs.set index last).dropLast

namespace ValidatorSet

/-- The set without validators. -/
def empty : ValidatorSet := ⟨[], .empty, 0⟩

instance : Inhabited ValidatorSet := ⟨empty⟩

/-- The set after a change, the event to report, which there is none of where the change has no
effect, and the validator that was asked to be removed. -/
structure Update where
  set : ValidatorSet
  event : Option StakeEvent
  removed : Option Validator
deriving DecidableEq

/-! ## Reading -/

/-- The number of validators. -/
def size (s : ValidatorSet) : Nat := s.records.length

/-- Whether a node is a validator, by the table alone. -/
def contains (s : ValidatorSet) (node : NodeId) : Bool := s.positions.contains node

/-- The record of a node, found by way of the table. -/
def record? (s : ValidatorSet) (node : NodeId) : Option ValidatorRecord :=
  (s.positions.get? node).bind fun position => s.records[position]?

/-- The validator that a node is. -/
def get? (s : ValidatorSet) (node : NodeId) : Option Validator :=
  (s.record? node).map (·.toValidator)

/-- The weight of a node, zero where it is not in the set. -/
def weight (s : ValidatorSet) (node : NodeId) : UInt64 :=
  match s.record? node with
  | none => 0
  | some record => record.weight

/-- The validators in the order of their slots. -/
def list (s : ValidatorSet) : Snapshot := s.records.map (·.toValidator)

/-- The sum of the weights of a list of nodes, each counted as often as it is listed. -/
def subsetWeight (s : ValidatorSet) (nodes : List NodeId) : Except ValidatorError UInt64 :=
  nodes.foldlM (fun sum node =>
    match Amount.add? sum (s.weight node) with
    | none => .error (.weightOverflow sum (s.weight node))
    | some sum => .ok sum) 0

/-! ## Scanning -/

/-- The position reported for a node that the table does not know. -/
def noPosition : Nat := Amount.bound - 1

/-- Scans the records that stand from a slot on; the answer is the sum of their weights added to
that of the records before. -/
def scan (s : ValidatorSet) : (slot : Nat) → (sum : UInt64) → List ValidatorRecord →
    Except ValidatorError UInt64
  | _, sum, [] => .ok sum
  | slot, sum, record :: rest =>
    let indexed := s.positions.get? record.node
    if record.position ≠ slot ∨ indexed ≠ some slot then
      .error (.corruptPosition record.node (indexed.getD noPosition) record.position)
    else
      match Amount.add? sum record.weight with
      | none => .error (.weightOverflow sum record.weight)
      | some sum => scan s (slot + 1) sum rest

/-- Whether the records, the table and the total agree; the error says where they first do not. -/
def check (s : ValidatorSet) : Except ValidatorError Unit :=
  match s.scan 0 0 s.records with
  | .error e => .error e
  | .ok sum =>
    if s.positions.size ≠ s.records.length then
      .error (.corruptLookup s.positions.size s.records.length)
    else if sum ≠ s.totalWeight then .error (.totalWeightMismatch s.totalWeight sum)
    else .ok ()

/-! ## Changing -/

/-- The slot and the record of a node, after checking that both agree. -/
def resolve (s : ValidatorSet) (node : NodeId) : Except ValidatorError (Nat × ValidatorRecord) :=
  match s.positions.get? node with
  | none => .error (.unknownIdentity node)
  | some position =>
    match s.records[position]? with
    | none => .error (.corruptPosition node position noPosition)
    | some record =>
      if record.node = node ∧ record.position = position then .ok (position, record)
      else .error (.corruptPosition node position record.position)

/-- The set with another weight in the record of a slot, and another total. -/
def reweigh (s : ValidatorSet) (position : Nat) (record : ValidatorRecord)
    (weight total : UInt64) : ValidatorSet :=
  { s with records := s.records.set position { record with weight }, totalWeight := total }

/-- Adds a validator in a slot of its own behind all others. Its weight is checked first, then its node,
then the total. -/
def add (s : ValidatorSet) (node : NodeId) (key : Option PublicKey) (tx : Option TxId)
    (weight : UInt64) : Except ValidatorError Update :=
  if weight = 0 then .error (.zeroWeight node)
  else if s.positions.contains node then .error (.duplicateIdentity node)
  else
    match Amount.add? s.totalWeight weight with
    | none => .error (.weightOverflow s.totalWeight weight)
    | some total =>
      let position := s.records.length
      .ok {
        set := {
          records := s.records ++ [{ node, key, weight, tx, position }]
          positions := s.positions.insert node position
          totalWeight := total }
        event := some (.added node key weight)
        removed := none }

/-- The set without the record in a slot, whose place the last record takes. -/
def vacate (s : ValidatorSet) (position : Nat) (record : ValidatorRecord) : ValidatorSet :=
  let records := swapRemove s.records position
  let positions := s.positions.erase record.node
  let totalWeight := s.totalWeight - record.weight
  match records[position]? with
  -- the vacated slot was the last one, so nothing has moved into it
  | none => { records, positions, totalWeight }
  | some moved => {
      records := records.set position { moved with position }
      positions := positions.insert moved.node position
      totalWeight }

/-- Removes a validator; the answer shows it as it last was. -/
def remove (s : ValidatorSet) (node : NodeId) : Except ValidatorError Update :=
  match s.resolve node with
  | .error e => .error e
  | .ok (position, record) => .ok {
      set := s.vacate position record
      event := some (.removed node record.weight)
      removed := some record.toValidator }

/-- Gives a validator another weight, also the one it has, which is reported all the same. The total is
taken without its old weight first, so that only the new total has to fit. -/
def setWeight (s : ValidatorSet) (node : NodeId) (weight : UInt64) :
    Except ValidatorError Update :=
  match s.resolve node with
  | .error e => .error e
  | .ok (position, record) =>
    if weight = 0 then .error (.zeroWeight node)
    else
      let others := s.totalWeight - record.weight
      match Amount.add? others weight with
      | none => .error (.weightOverflow others weight)
      | some total => .ok {
          set := s.reweigh position record weight total
          event := some (.reweighted node record.weight weight)
          removed := none }

/-- Raises the weight of a validator; by zero changes and reports nothing. -/
def addWeight (s : ValidatorSet) (node : NodeId) (delta : UInt64) :
    Except ValidatorError Update :=
  match s.resolve node with
  | .error e => .error e
  | .ok (position, record) =>
    if delta = 0 then .ok { set := s, event := none, removed := none }
    else
      match Amount.add? record.weight delta with
      | none => .error (.weightOverflow record.weight delta)
      | some weight =>
        match Amount.add? s.totalWeight delta with
        | none => .error (.weightOverflow s.totalWeight delta)
        | some total => .ok {
            set := s.reweigh position record weight total
            event := some (.reweighted node record.weight weight)
            removed := none }

/-- Lowers the weight of a validator, and removes it where nothing is left. -/
def removeWeight (s : ValidatorSet) (node : NodeId) (delta : UInt64) :
    Except ValidatorError Update :=
  match s.resolve node with
  | .error e => .error e
  | .ok (position, record) =>
    if delta = 0 then .ok { set := s, event := none, removed := none }
    else if record.weight < delta then
      .error (.insufficientStake node record.weight delta)
    else if record.weight = delta then (s.remove node).map ({ · with removed := none })
    else
      let weight := record.weight - delta
      .ok {
        set := s.reweigh position record weight (s.totalWeight - delta)
        event := some (.reweighted node record.weight weight)
        removed := none }

/-- Carries out a change, or says why it is refused. -/
def apply (s : ValidatorSet) : StakeChange → Except ValidatorError Update
  | .add node key tx weight => s.add node key tx weight
  | .remove node => s.remove node
  | .setWeight node weight => s.setWeight node weight
  | .addWeight node delta => s.addWeight node delta
  | .removeWeight node delta => s.removeWeight node delta

/-- The set after a request, unchanged where the request is refused. -/
def step (s : ValidatorSet) (change : StakeChange) : ValidatorSet :=
  match s.apply change with
  | .error _ => s
  | .ok update => update.set

/-- The set after a list of requests, of which some may be refused. -/
def run (s : ValidatorSet) (changes : List StakeChange) : ValidatorSet := changes.foldl step s

/-- The set with the validators of a snapshot, added one after the other; the first that cannot be added
is the error. -/
def ofSnapshot (snapshot : Snapshot) : Except ValidatorError ValidatorSet :=
  snapshot.foldlM (fun s v => (s.add v.node v.key none v.weight).map (·.set)) empty

end ValidatorSet

end StakeGuard
