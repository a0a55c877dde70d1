import StakeGuard.Roster
import StakeGuard.Throttle.Throttler

/-!
# Scopes

A validator set with its listeners, and the throttler that admits messages by its stake. Every call
that may change a scope is a value of `ScopeCall`, and `Scope.call` carries it out.
-/

namespace StakeGuard

/-- The validators of a subnet and their throttler. -/
structure Scope where
  roster : Roster
  throttler : Throttler
deriving DecidableEq

/-- Everything that can be asked of a scope and may change it. An `acquire` is of bytes that the caller
gives back, an `acquirePermit` of bytes that go with a permit. -/
inductive ScopeCall where
  | change (request : StakeChange)
  | register (listener : String)
  | acquire (node : NodeId) (size : UInt64)
  | tryAcquire (node : NodeId) (size : UInt64)
  | acquireUnlessCancelled (cancellation : Cancellation) (node : NodeId) (size : UInt64)
  | acquirePermit (node : NodeId) (size : UInt64)
  | dropPermit (permit : Permit)
  | release (node : NodeId) (size : UInt64)
deriving DecidableEq

namespace Scope

/-- What the caller of a scope is told. -/
inductive Answer where
  | done
  | removed (validator : Validator)
  | bytes (bytes : PoolBytes)
  | granted (granted : Bool)
  | permit (permit : Permit)
  | refusedChange (error : ValidatorError)
  | refusedBytes (error : ThrottleError)
deriving DecidableEq

/-- The answer to a call, the scope after it, and what there is to report of it. -/
structure Reply where
  answer : Answer
  scope : Scope
  reports : List Report
  signals : List Signal

/-- The validators without any, and full pools under a label. -/
def make (config : ThrottleConfig) (label : String) :
    Except ThrottleConfigError (Scope × List Signal) :=
  (Throttler.make config).map fun (throttler, created) =>
    let (throttler, labelled) := throttler.relabel label
    (⟨.empty, throttler⟩, created ++ labelled)

/-- The reply to a call that concerns the validators; the throttler is not touched and nothing is
counted. -/
def afterRoster (s : Scope) (reply : Roster.Reply) : Reply where
  answer := match reply.removed with
    | none => .done
    | some validator => .removed validator
  scope := { s with roster := reply.roster }
  reports := reply.reports
  signals := []

/-- The reply to a call that concerns the throttler; `answer` turns what it is granted into an
answer. -/
def afterThrottler {α : Type} (s : Scope) (reply : Throttler.Reply α)
    (answer : Except ThrottleError α → Answer) : Reply :=
  ⟨answer reply.result, { s with throttler := reply.throttler }, [], reply.signals⟩

/-- The answer to a request for bytes, or to their return. -/
def Answer.ofBytes : Except ThrottleError PoolBytes → Answer
  | .ok b => bytes b
  | .error e => refusedBytes e

/-- The answer to a request for a permit. -/
def Answer.ofPermit : Except ThrottleError Permit → Answer
  | .ok p => permit p
  | .error e => refusedBytes e

/-- Carries out a call. Bytes are granted by the stake that a node has at this moment; what it holds
stays where its stake changes. -/
def call (s : Scope) : ScopeCall → Reply
  | .change request =>
    match s.roster.apply request with
    | .error e => ⟨.refusedChange e, s, [], []⟩
    | .ok reply => s.afterRoster reply
  | .register listener => s.afterRoster (s.roster.register listener)
  | .acquire node size =>
    s.afterThrottler (s.throttler.acquire s.roster.set node size) .ofBytes
  | .tryAcquire node size =>
    s.afterThrottler (s.throttler.acquire s.roster.set node size) fun r => .granted r.isOk
  | .acquireUnlessCancelled cancellation node size =>
    s.afterThrottler
      (s.throttler.acquireUnlessCancelled s.roster.set cancellation node size) .ofBytes
  | .acquirePermit node size =>
    s.afterThrottler (s.throttler.acquirePermit s.roster.set node size) .ofPermit
  | .dropPermit permit => s.afterThrottler (s.throttler.dropPermit permit) fun _ => .done
  | .release node size => s.afterThrottler (s.throttler.release node size) .ofBytes

/-- The scope after a list of calls, and all that there is to report to listeners and to count. -/
def run (s : Scope) (calls : List ScopeCall) : Scope × List Report × List Signal :=
  calls.foldl (fun (s, reports, signals) c =>
    let reply := s.call c
    (reply.scope, reports ++ reply.reports, signals ++ reply.signals)) (s, [], [])

end Scope

end StakeGuard
