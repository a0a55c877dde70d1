import StakeGuard.Cancellation
import StakeGuard.Metrics
import StakeGuard.Throttle.Budget
import StakeGuard.ValidatorSet

/-!
# Throttlers

The gate for messages coming in to a scope: a budget under a label, in which nodes are granted bytes
by the stake they have at that moment. Every grant and every return publishes the state of the pools;
every refusal is counted.
-/

namespace StakeGuard

/-- The stake of a node in a validator set, of no weight where it is not in the set. -/
def ValidatorSet.stake (s : ValidatorSet) (node : NodeId) : Stake := ⟨s.weight node, s.totalWeight⟩

/-- A budget and the label under which it is reported. -/
structure Throttler where
  label : String
  budget : Budget
deriving DecidableEq

/-- Bytes that a message in flight holds until the permit is dropped. -/
structure Permit where
  node : NodeId
  size : UInt64
deriving DecidableEq

namespace Throttler

/-- The label before one is given. -/
def defaultLabel : String := "default"

/-- The result of a call, the throttler after it, and what it has to report. -/
structure Reply (α : Type) where
  result : Except ThrottleError α
  throttler : Throttler
  signals : List Signal

/-- The same reply with another result in place of a successful one. -/
def Reply.map {α β : Type} (f : α → β) (r : Reply α) : Reply β := { r with result := r.result.map f }

/-- The report on the pools as they are. -/
def pools (t : Throttler) : Signal :=
  .pools t.label t.budget.remaining.validator t.budget.remaining.atLarge t.budget.activeNodes

/-- A throttler with full pools under the default label. -/
def make (config : ThrottleConfig) : Except ThrottleConfigError (Throttler × List Signal) :=
  config.validate.map fun _ =>
    let t : Throttler := ⟨defaultLabel, .full config⟩
    (t, [t.pools])

/-- Reports under another label from now on, and reports the pools under it at once. What was reported
under the old one stays. -/
def relabel (t : Throttler) (label : String) : Throttler × List Signal :=
  let t := { t with label }
  (t, [t.pools])

/-- The reply to a grant or a return: the new state of the pools is reported. -/
def settled (t : Throttler) (budget : Budget) (bytes : PoolBytes) : Reply PoolBytes :=
  let t := { t with budget }
  ⟨.ok bytes, t, [t.pools]⟩

/-- The reply to a refused request, which is counted. The budget may differ in that it notes the
refusal. -/
def refuse (t : Throttler) (budget : Budget) (e : ThrottleError) : Reply PoolBytes :=
  ⟨.error e, { t with budget }, [.refused t.label e.reason]⟩

/-- Takes bytes for a message of a node, all of them or none. -/
def acquire (t : Throttler) (set : ValidatorSet) (node : NodeId) (size : UInt64) :
    Reply PoolBytes :=
  if size = 0 then ⟨.ok .none, t, []⟩
  else
    match t.budget.acquire node size (set.stake node) with
    | (.ok grant, budget) => t.settled budget grant
    | (.error e, budget) => t.refuse budget e

/-- Takes bytes unless the request is called off. A request called off before is not counted; one
called off while it is planned is refused, whatever the plan, and leaves the budget alone. -/
def acquireUnlessCancelled (t : Throttler) (set : ValidatorSet) (cancellation : Cancellation)
    (node : NodeId) (size : UInt64) : Reply PoolBytes :=
  if cancellation = .before then ⟨.error (.cancelled node), t, []⟩
  else if size = 0 then ⟨.ok .none, t, []⟩
  else if cancellation = .during then t.refuse t.budget (.cancelled node)
  else
    match t.budget.plan node size (set.stake node) with
    | .ok grant => t.settled (t.budget.commit node grant) grant
    | .error e => t.refuse (t.budget.markRefused node) e

/-- Gives back bytes. Giving back more than a node holds is an error, but no refusal, and is not
counted. -/
def release (t : Throttler) (node : NodeId) (size : UInt64) : Reply PoolBytes :=
  match t.budget.release node size with
  | (.ok returned, budget) => t.settled budget returned
  | (.error e, budget) => ⟨.error e, { t with budget }, []⟩

/-- Takes bytes and answers with the permit that holds them. -/
def acquirePermit (t : Throttler) (set : ValidatorSet) (node : NodeId) (size : UInt64) :
    Reply Permit :=
  (t.acquire set node size).map fun _ => ⟨node, size⟩

/-- Gives back the bytes of a permit. -/
def dropPermit (t : Throttler) (permit : Permit) : Reply PoolBytes :=
  t.release permit.node permit.size

end Throttler

end StakeGuard
