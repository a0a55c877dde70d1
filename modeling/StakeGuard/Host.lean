import StakeGuard.Registry

/-!
# Hosts

What one process hosts: the scopes of a registry, the permits of messages in flight, and the metrics
that all of them add up to. A permit is held under a name until it is dropped, and a name holds one
permit at a time.
-/

namespace StakeGuard

/-- A permit and the handle of the scope that granted it. -/
structure HeldPermit where
  handle : Nat
  permit : Permit
deriving DecidableEq

/-- One process: its registry, the permits it holds by name, and the metrics it exports. -/
structure Host where
  registry : Registry
  permits : Table String HeldPermit
  metrics : Metrics
deriving DecidableEq

namespace Host

/-- A host without scopes, permits and metrics. -/
def make (config : ThrottleConfig) : Host := ⟨.make config, .empty, .empty⟩

/-- Adds signals to the metrics. -/
def count (h : Host) (signals : List Signal) : Host :=
  { h with metrics := h.metrics.observeAll signals }

/-- A host of one scope, under handle zero, and the signals of its creation. -/
def ofScope (scope : Scope) (signals : List Signal) : Host :=
  let registry := Registry.make scope.throttler.budget.config
  let host : Host := ⟨{ registry with opened := [⟨primaryNetwork, scope⟩] }, .empty, .empty⟩
  host.count signals

/-- Carries out a call on the scope of a handle and counts what it reports; none where the handle was
never given out. -/
def call (h : Host) (handle : Nat) (c : ScopeCall) : Option (Scope.Reply × Host) :=
  (h.registry.onScope handle c).map fun (reply, registry) =>
    (reply, { h with registry }.count reply.signals)

/-- Drops the permit held under a name. The answer is whether there was one. -/
def dropPermit (h : Host) (name : String) : Bool × Host :=
  match h.permits.get? name with
  | none => (false, h)
  | some held =>
    let h := { h with permits := h.permits.erase name }
    match h.call held.handle (.dropPermit held.permit) with
    | none => (true, h)
    | some (_, h) => (true, h)

/-- Acquires a permit and holds it under a name; the permit that the name held before is dropped. -/
def acquirePermit (h : Host) (name : String) (handle : Nat) (node : NodeId) (size : UInt64) :
    Option (Scope.Reply × Host) :=
  (h.call handle (.acquirePermit node size)).map fun (reply, h) =>
    match reply.answer with
    | .permit permit =>
      let h := (h.dropPermit name).2
      (reply, { h with permits := h.permits.insert name ⟨handle, permit⟩ })
    | _ => (reply, h)

/-- Drops all permits in the order of their names. -/
def dropPermits (h : Host) : Host :=
  (ascending h.permits.keys).foldl (fun h name => (h.dropPermit name).2) h

end Host

end StakeGuard
