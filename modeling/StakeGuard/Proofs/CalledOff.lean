import StakeGuard.Proofs.Throttling

/-!
# Requests that are called off

A request that may be called off plans, commits and refuses by itself, apart from an ordinary one. Where
it is not called off the two come to the same in every respect
(`Throttler.acquireUnlessCancelled_never`), and where it is called off before it is looked at nothing
happens. Main statement: so it is for single requests in every state, and a run is the same as one in
which the former are ordinary requests and the latter are left out
(`Throttler.acquireUnlessCancelled_agrees`).
-/

namespace StakeGuard

/-- A call as it is made by someone who cannot call it off; none where it is called off before it is
looked at. -/
def ScopeCall.plain? : ScopeCall → Option ScopeCall
  | acquireUnlessCancelled .never node size => some (acquire node size)
  | acquireUnlessCancelled .before _ _ => none
  | call => some call

namespace Scope

/-- A request that is never called off is an ordinary one. -/
theorem call_never (s : Scope) (node : NodeId) (size : UInt64) :
    s.call (.acquireUnlessCancelled .never node size) = s.call (.acquire node size) := by
  simp only [Scope.call, Throttler.acquireUnlessCancelled_never]

theorem call_before (s : Scope) (node : NodeId) (size : UInt64) :
    s.call (.acquireUnlessCancelled .before node size) =
      ⟨.refusedBytes (.cancelled node), s, [], []⟩ :=
  rfl

/-- A run is the same without what can be called off. -/
theorem run_plain (s : Scope) (calls : List ScopeCall) :
    s.run (calls.filterMap ScopeCall.plain?) = s.run calls := by
  unfold run
  rw [List.foldl_filterMap]
  refine List.foldl_ext _ _ _ fun state call _ => ?_
  cases call with
  | acquireUnlessCancelled cancellation node size =>
    cases cancellation with
    | never => simp only [ScopeCall.plain?, call_never]
    | before => simp only [ScopeCall.plain?, call_before, List.append_nil]
    | during => rfl
  | change | register | acquire | tryAcquire | acquirePermit | dropPermit | release => rfl

end Scope

/-- **A request that may be called off is an ordinary one until it is.** In every state, with any
validators, a request of a node for any number of bytes that is not called off has the result of an
ordinary one and leaves the same pools, holdings and standings and the same metrics. One that is called
off before it is looked at is answered so and changes nothing of the throttler. So a run leaves the same
scope, and has the same to report to listeners and to count, if the former are made as ordinary requests
and the latter are not made. -/
theorem Throttler.acquireUnlessCancelled_agrees (t : Throttler) (set : ValidatorSet) (node : NodeId)
    (size : UInt64) :
    let plain := t.acquire set node size
    let live := t.acquireUnlessCancelled set .never node size
    let fired := t.acquireUnlessCancelled set .before node size
    (live.result = plain.result ∧ live.throttler = plain.throttler ∧
      ∀ m : Metrics, m.observeAll live.signals = m.observeAll plain.signals) ∧
    (fired.result = .error (.cancelled node) ∧ fired.throttler = t) ∧
    ∀ (s : Scope) (calls : List ScopeCall), s.run (calls.filterMap ScopeCall.plain?) = s.run calls := by
  intro plain live fired
  have hlive : live = plain := acquireUnlessCancelled_never set node size
  rw [hlive]
  exact ⟨⟨rfl, rfl, fun _ => rfl⟩, ⟨rfl, rfl⟩, Scope.run_plain⟩

end StakeGuard
