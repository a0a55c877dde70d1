import StakeGuard.Oracle
import StakeGuard.Scope

/-!
# The registry of scopes

All scopes of a node, one for each active subnet. Activating a subnet opens an empty scope under a new
handle; deactivating it forgets its chains and snapshots, while whoever holds the handle keeps the
detached scope. Advancing the height records the validators of every active scope where they differ
from those last recorded, and questions about a height are answered from these records only.
-/

namespace StakeGuard

/-- A scope and the subnet for which it was opened. -/
structure OpenedScope where
  subnet : SubnetId
  scope : Scope
deriving DecidableEq

/-- Every scope ever opened, which of them are active, and what is recorded of these. A scope's
handle is its index among all of them. -/
structure Registry where
  config : ThrottleConfig
  opened : List OpenedScope
  active : Table SubnetId Nat
  chains : ChainMap
  history : History
  height : UInt64
deriving DecidableEq

/-- Why a subnet cannot be activated. -/
inductive RegistryError where
  | scopeExists (subnet : SubnetId)
  | throttler (cause : ThrottleConfigError)
deriving DecidableEq

namespace RegistryError

/-- The name of an error's variant. -/
def kind : RegistryError → String
  | scopeExists _ => "ScopeExists"
  | throttler _ => "Throttler"

/-- The text of an error. -/
def message : RegistryError → String
  | scopeExists subnet => s!"Scope already active: {subnet}"
  | throttler cause => cause.message

end RegistryError

/-- Everything that can be asked of a registry and may change it. -/
inductive RegistryCall where
  | activate (subnet : SubnetId)
  | deactivate (subnet : SubnetId)
  | registerChain (chain : ChainId) (subnet : SubnetId)
  | advance (height : UInt64)
  | onScope (handle : Nat) (call : ScopeCall)
deriving DecidableEq

namespace Registry

/-- A registry without scopes, at height zero; `config` gives the pools of the scopes to come. -/
def make (config : ThrottleConfig) : Registry := ⟨config, [], .empty, .empty, .empty, 0⟩

/-! ## Reading -/

/-- The number of active scopes. -/
def activeScopes (r : Registry) : Nat := r.active.size

/-- The handle of the active scope of a subnet. -/
def handle? (r : Registry) (subnet : SubnetId) : Option Nat := r.active.get? subnet

/-- The scope of a handle, active or detached; none where the handle was never given out. -/
def scope? (r : Registry) (handle : Nat) : Option Scope := (r.opened[handle]?).map (·.scope)

/-- The handle of the active scope of the subnet that a chain is assigned to. -/
def handleForChain? (r : Registry) (chain : ChainId) : Option Nat :=
  (r.chains.get? chain).bind r.handle?

/-- The number of snapshots recorded of a subnet, zero for one that is not active. -/
def snapshotCount (r : Registry) (subnet : SubnetId) : Nat :=
  match r.history.get? subnet with
  | none => 0
  | some timeline => timeline.size

/-- The registry as an oracle for verifiers, who learn of a scope's present state only when the height
is advanced. -/
def oracle (r : Registry) : ValidatorOracle where
  currentHeight := .ok r.height
  subnetOf chain := r.chains.resolve chain
  validatorsAt height subnet := r.history.validatorsAt r.height height subnet

/-! ## Changing -/

/-- Opens an empty scope for a subnet that has no active one. The answer is its handle. -/
def activate (r : Registry) (subnet : SubnetId) :
    Except RegistryError (Nat × Registry × List Signal) :=
  if r.active.contains subnet then .error (.scopeExists subnet)
  else
    match Scope.make r.config subnet.text with
    | .error cause => .error (.throttler cause)
    | .ok (scope, signals) =>
      let handle := r.opened.length
      .ok (handle, { r with
        opened := r.opened ++ [⟨subnet, scope⟩]
        active := r.active.insert subnet handle
        history := r.history.insert subnet (.single r.height []) }, signals)

/-- Detaches the active scope of a subnet, with its chains and snapshots. The answer is its
handle. -/
def deactivate (r : Registry) (subnet : SubnetId) : Option Nat × Registry :=
  match r.active.get? subnet with
  | none => (none, r)
  | some handle => (some handle, { r with
      active := r.active.erase subnet
      chains := r.chains.retain fun _ target => target ≠ subnet
      history := r.history.erase subnet })

/-- Assigns a chain to a subnet, which need not be active, in place of the one it may have had. -/
def registerChain (r : Registry) (chain : ChainId) (subnet : SubnetId) : Registry :=
  { r with chains := r.chains.insert chain subnet }

/-- Records a snapshot at a height unless it equals the latest one. -/
def recordSnapshot (height : UInt64) (history : History) (subnet : SubnetId)
    (snapshot : Snapshot) : History :=
  let timeline := (history.get? subnet).getD .empty
  -- nothing is recorded above a height that is only now reached, so this asks for the latest
  if timeline.at? height = some snapshot then history
  else history.insert subnet (timeline.record height snapshot)

/-- The validators of the scope of a handle, in the order of their slots. -/
def listOf (r : Registry) (handle : Nat) : Snapshot :=
  match r.scope? handle with
  | none => []
  | some scope => scope.roster.set.list

/-- Raises the height and records the validators of every active scope; a height that is not higher
changes nothing. The answer is the height then reached. -/
def advance (r : Registry) (height : UInt64) : UInt64 × Registry :=
  if height ≤ r.height then (r.height, r)
  else
    let history := r.active.entries.foldl
      (fun history entry => recordSnapshot height history entry.1 (r.listOf entry.2)) r.history
    (height, { r with height, history })

/-- Carries out a call on the scope of a handle; none where the handle was never given out. A detached
scope answers like an active one. -/
def onScope (r : Registry) (handle : Nat) (call : ScopeCall) : Option (Scope.Reply × Registry) :=
  match r.opened[handle]? with
  | none => none
  | some opened =>
    let reply := opened.scope.call call
    some (reply, { r with opened := r.opened.set handle { opened with scope := reply.scope } })

/-- The registry after a call and what there is to report of it. An activation that is refused changes
nothing, nor does a call through a handle that was never given out; a call on a scope that is refused
there leaves what the scope makes of it. -/
def step (r : Registry) : RegistryCall → Registry × List Signal
  | .activate subnet =>
    match r.activate subnet with
    | .error _ => (r, [])
    | .ok (_, r, signals) => (r, signals)
  | .deactivate subnet => ((r.deactivate subnet).2, [])
  | .registerChain chain subnet => (r.registerChain chain subnet, [])
  | .advance height => ((r.advance height).2, [])
  | .onScope handle call =>
    match r.onScope handle call with
    | none => (r, [])
    | some (reply, r) => (r, reply.signals)

/-- The registry after a list of calls and all that there is to report. -/
def run (r : Registry) (calls : List RegistryCall) : Registry × List Signal :=
  calls.foldl (fun (r, signals) call =>
    let (r, more) := r.step call
    (r, signals ++ more)) (r, [])

end Registry

end StakeGuard
