import StakeGuard.Attestation.Error
import StakeGuard.Table
import StakeGuard.Timeline

/-!
# Oracles

Who validates a chain at a height. A `ValidatorOracle` is any source of such answers;
`SnapshotOracle` answers from recorded snapshots, each standing from its height on until the next.
-/

namespace StakeGuard

/-- What a verifier asks: how far the answers go, of which subnet a chain is, and who validated a subnet
at a height. Every answer may fail. -/
structure ValidatorOracle where
  /-- The latest height about which there are answers. -/
  currentHeight : Except OracleError UInt64
  subnetOf : ChainId → Except OracleError SubnetId
  validatorsAt : (height : UInt64) → SubnetId → Except OracleError Snapshot

namespace ValidatorOracle

/-- The oracle with every question about a chain's subnet failing. -/
def withoutChains (o : ValidatorOracle) (reason : String) : ValidatorOracle :=
  { o with subnetOf := fun _ => .error (.unavailable reason) }

/-- The oracle with every question about a subnet's validators failing. -/
def withoutValidators (o : ValidatorOracle) (reason : String) : ValidatorOracle :=
  { o with validatorsAt := fun _ _ => .error (.unavailable reason) }

end ValidatorOracle

/-- The chains that are known, with their subnets. -/
abbrev ChainMap := Table ChainId SubnetId

/-- The subnet of a chain, which must be known. -/
def ChainMap.resolve (chains : ChainMap) (chain : ChainId) : Except OracleError SubnetId :=
  match chains.get? chain with
  | none => .error (.unknownChain chain)
  | some subnet => .ok subnet

theorem ChainMap.resolve_eq_ok_iff {chains : ChainMap} {chain : ChainId} {subnet : SubnetId} :
    chains.resolve chain = .ok subnet ↔ chains.get? chain = some subnet := by
  rw [resolve]
  cases chains.get? chain <;> simp

/-- The snapshots recorded of each subnet, by height. -/
abbrev History := Table SubnetId (Timeline Snapshot)

/-- The validators of a subnet at a height that must have been reached. -/
def History.validatorsAt (history : History) (current height : UInt64) (subnet : SubnetId) :
    Except OracleError Snapshot :=
  if current < height then .error (.heightNotReached height current)
  else
    match (history.get? subnet).bind (·.at? height) with
    | none => .error (.unknownSubnet subnet)
    | some snapshot => .ok snapshot

/-- There is an answer exactly for heights that have been reached and at or below which a snapshot is
recorded; it is the latest of these. -/
theorem History.validatorsAt_eq_ok_iff {history : History} {current height : UInt64}
    {subnet : SubnetId} {snapshot : Snapshot} :
    history.validatorsAt current height subnet = .ok snapshot ↔
      height ≤ current ∧ (history.get? subnet).bind (·.at? height) = some snapshot := by
  rw [validatorsAt, ← UInt64.not_lt]
  split
  · next h => simp [h]
  · next h => cases (history.get? subnet).bind (·.at? height) <;> simp [h]

/-- An oracle that answers from snapshots recorded outright. -/
structure SnapshotOracle where
  chains : ChainMap
  history : History
  height : UInt64
deriving DecidableEq

namespace SnapshotOracle

/-- The oracle that knows no chain and no subnet, at height zero. -/
def empty : SnapshotOracle := ⟨.empty, .empty, 0⟩

instance : Inhabited SnapshotOracle := ⟨empty⟩

/-- Assigns a chain to a subnet, in place of the one it may have had. -/
def registerChain (o : SnapshotOracle) (chain : ChainId) (subnet : SubnetId) : SnapshotOracle :=
  { o with chains := o.chains.insert chain subnet }

/-- Records the validators of a subnet at a height, which is then reached. -/
def record (o : SnapshotOracle) (height : UInt64) (subnet : SubnetId) (snapshot : Snapshot) :
    SnapshotOracle :=
  let timeline := (o.history.get? subnet).getD .empty
  { o with
    history := o.history.insert subnet (timeline.record height snapshot)
    height := if o.height ≤ height then height else o.height }

/-- Sets the height that counts as reached, also to a lower one; the snapshots stay. -/
def setHeight (o : SnapshotOracle) (height : UInt64) : SnapshotOracle := { o with height }

/-- The oracle as a verifier sees it. -/
def oracle (o : SnapshotOracle) : ValidatorOracle where
  currentHeight := .ok o.height
  subnetOf chain := o.chains.resolve chain
  validatorsAt height subnet := o.history.validatorsAt o.height height subnet

end SnapshotOracle

end StakeGuard
