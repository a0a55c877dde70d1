import StakeGuard.Proofs.Throttling

/-!
# The events of a run

A call on a scope asks for bytes, gives some back, or concerns the validators only. The first two are
events, which say whose bytes they are of, how many, and what became of them (`Scope.event?`); what a
call does to the throttler and what there is to report of it depends on its event and on when it is
called off, not on how it words its answer (`Scope.amounts`). Main statement: a node holds what it was
granted in the events of a run less what it gave back in them (`Throttler.count_held_after`).
-/

namespace StakeGuard

/-- The two ways in which bytes move. -/
inductive ByteMove where
  | request
  | giveBack
deriving DecidableEq

/-- A request for bytes or a return of some, and what became of it. -/
structure ByteEvent where
  move : ByteMove
  node : NodeId
  size : UInt64
  result : Except ThrottleError PoolBytes
deriving DecidableEq

namespace ByteEvent

/-- How many bytes of a node an event has moved one way. -/
def moved (move : ByteMove) (node : NodeId) (e : ByteEvent) : Nat :=
  if e.move = move ∧ e.node = node ∧ e.result.isOk then e.size.toNat else 0

/-- How many bytes of a node were moved one way in all. -/
def total (move : ByteMove) (node : NodeId) (events : List ByteEvent) : Nat :=
  (events.map (moved move node)).sum

variable {move : ByteMove} {node : NodeId}

@[simp] theorem total_nil : total move node [] = 0 := rfl

@[simp] theorem total_singleton (e : ByteEvent) : total move node [e] = e.moved move node :=
  Nat.add_zero _

@[simp] theorem total_append (events more : List ByteEvent) :
    total move node (events ++ more) = total move node events + total move node more := by
  simp [total]

end ByteEvent

/-- When a call is called off. Only a request that may be is. -/
def ScopeCall.cancellation : ScopeCall → Cancellation
  | acquireUnlessCancelled cancellation .. => cancellation
  | change _ | register _ | acquire .. | tryAcquire .. | acquirePermit .. | dropPermit _
  | release .. => .never

/-! ## What one call does -/

namespace Budget

variable {b b' : Budget} {node other : NodeId} {size : UInt64} {bytes : PoolBytes}
  {result : Except ThrottleError PoolBytes}

theorem Drawn.count_held (h : Drawn b b' node bytes) :
    (b'.held node).count = (b.held node).count + bytes.count := by
  have hvalidator := h.validator_held
  have hatLarge := h.atLarge_held
  unfold PoolBytes.count
  omega

/-- A request adds to what every node holds just what its event says, which is nothing for all nodes but
one. -/
theorem Request.count_held (h : Request b node size result b') (halike : AlikeBut b b' node)
    (other : NodeId) :
    (b'.held other).count =
      (b.held other).count + (ByteEvent.mk .request node size result).moved .request other := by
  by_cases hother : other = node
  · subst hother
    cases h with
    | granted hcount hdrawn =>
      rw [hdrawn.count_held, hcount]
      simp [ByteEvent.moved, Except.isOk, Except.toBool]
    | refused hremaining husage =>
      have hheld : b'.held other = b.held other := held_congr (by rw [husage])
      rw [hheld]
      simp [ByteEvent.moved, Except.isOk, Except.toBool]
  · rw [halike.held_eq hother]
    simp [ByteEvent.moved, Ne.symm hother]

/-- A return takes from what every node holds just what its event says. -/
theorem Return.count_held (h : Return b node size result b') (halike : AlikeBut b b' node)
    (other : NodeId) :
    (b'.held other).count + (ByteEvent.mk .giveBack node size result).moved .giveBack other =
      (b.held other).count := by
  by_cases hother : other = node
  · subst hother
    cases h with
    | taken hsize hcount hfirst hdrawn =>
      rw [hdrawn.count_held, hcount]
      simp [ByteEvent.moved, Except.isOk, Except.toBool]
    | refused hsize => simp [ByteEvent.moved, Except.isOk, Except.toBool]
  · rw [halike.held_eq hother]
    simp [ByteEvent.moved, Ne.symm hother]

end Budget

namespace Scope

open Budget (Closed)

variable {s : Scope} {call : ScopeCall} {node : NodeId} {size : UInt64}

/-- The event that a call makes, if it is about bytes. -/
def event? (s : Scope) : ScopeCall → Option ByteEvent
  | .acquire node size | .tryAcquire node size | .acquirePermit node size =>
    some ⟨.request, node, size, (s.throttler.acquire s.roster.set node size).result⟩
  | .acquireUnlessCancelled cancellation node size =>
    some ⟨.request, node, size,
      (s.throttler.acquireUnlessCancelled s.roster.set cancellation node size).result⟩
  | .release node size => some ⟨.giveBack, node, size, (s.throttler.release node size).result⟩
  | .dropPermit permit =>
    some ⟨.giveBack, permit.node, permit.size, (s.throttler.dropPermit permit).result⟩
  | .change _ | .register _ => none

/-- What a call amounts to, whichever way it is worded. -/
inductive Amounts (s : Scope) (call : ScopeCall) : Prop
  | request {node : NodeId} {size : UInt64} {reply : Throttler.Reply PoolBytes}
    (hreply : s.throttler.acquireUnlessCancelled s.roster.set call.cancellation node size = reply)
    (hasked : call.asked? = some (node, size))
    (hevent : s.event? call = some ⟨.request, node, size, reply.result⟩)
    (hanswer : (s.call call).answer = call.answer reply.result)
    (hthrottler : (s.call call).scope.throttler = reply.throttler)
    (hsignals : (s.call call).signals = reply.signals)
  | giveBack {node : NodeId} {size : UInt64} {reply : Throttler.Reply PoolBytes}
    (hreply : s.throttler.release node size = reply)
    (hasked : call.asked? = none)
    (hevent : s.event? call = some ⟨.giveBack, node, size, reply.result⟩)
    (hthrottler : (s.call call).scope.throttler = reply.throttler)
    (hsignals : (s.call call).signals = reply.signals)
  | neither (hasked : call.asked? = none)
    (hevent : s.event? call = none)
    (hthrottler : (s.call call).scope.throttler = s.throttler)
    (hsignals : (s.call call).signals = [])

/-- Every call amounts to a request, a return, or nothing that concerns bytes. -/
theorem amounts (s : Scope) (call : ScopeCall) : s.Amounts call := by
  cases call with
  | acquire | tryAcquire | acquirePermit =>
    exact .request (Throttler.acquireUnlessCancelled_never ..) rfl rfl rfl rfl rfl
  | acquireUnlessCancelled => exact .request rfl rfl rfl rfl rfl rfl
  | release | dropPermit => exact .giveBack rfl rfl rfl rfl rfl
  | change request =>
    refine .neither rfl rfl (call_of_node?_none rfl) ?_
    rw [Scope.call]
    split <;> rfl
  | register => exact .neither rfl rfl rfl rfl

/-- One call changes what a node holds by its event. -/
theorem count_held_call (h : Closed s.throttler.budget) (call : ScopeCall) (node : NodeId) :
    ((s.call call).scope.throttler.budget.held node).count +
        ByteEvent.total .giveBack node (s.event? call).toList =
      (s.throttler.budget.held node).count +
        ByteEvent.total .request node (s.event? call).toList := by
  cases s.amounts call with
  | @request asker size _ hreply _ hevent _ hthrottler =>
    subst hreply
    obtain ⟨⟨-, halike⟩, hrequest⟩ := Throttler.request_acquireUnlessCancelled s.roster.set asker
      size h call.cancellation
    rw [hthrottler, hevent, hrequest.count_held halike node]
    simp [ByteEvent.moved]
  | @giveBack holder size _ hreply _ hevent hthrottler =>
    subst hreply
    obtain ⟨⟨-, halike⟩, hreturn⟩ := Throttler.return_release holder size h
    rw [hthrottler, hevent, ← hreturn.count_held halike node]
    simp [ByteEvent.moved]
  | neither _ hevent hthrottler =>
    rw [hthrottler, hevent]
    rfl

end Scope

/-! ## What a run does -/

namespace Throttler

open Budget (Closed)

variable {t : Throttler}

theorem after_append (t : Throttler) (calls more : List (Roster × ScopeCall)) :
    t.after (calls ++ more) = (t.after calls).after more := List.foldl_append

/-- The events of calls, each with the roster that there was at the time. -/
def events (t : Throttler) : List (Roster × ScopeCall) → List ByteEvent
  | [] => []
  | (roster, call) :: rest =>
    (Scope.event? ⟨roster, t⟩ call).toList ++
      (Scope.call ⟨roster, t⟩ call).scope.throttler.events rest

theorem events_concat (t : Throttler) (calls : List (Roster × ScopeCall)) (roster : Roster)
    (call : ScopeCall) :
    t.events (calls ++ [(roster, call)]) =
      t.events calls ++ (Scope.event? ⟨roster, t.after calls⟩ call).toList := by
  induction calls generalizing t with
  | nil => simp [events, after]
  | cons c rest ih =>
    have hrest := ih (Scope.call ⟨c.1, t⟩ c.2).scope.throttler
    simp only [List.cons_append, events, hrest, List.append_assoc]
    rfl

/-- What a node holds is what it held before and was granted since, less what it gave back. -/
theorem count_held_after (h : Closed t.budget) (calls : List (Roster × ScopeCall)) (node : NodeId) :
    ((t.after calls).budget.held node).count + ByteEvent.total .giveBack node (t.events calls) =
      (t.budget.held node).count + ByteEvent.total .request node (t.events calls) := by
  induction calls generalizing t with
  | nil => rfl
  | cons c rest ih =>
    have hstep := Scope.count_held_call (s := ⟨c.1, t⟩) h c.2 node
    have hrest := ih (Scope.call_sound (s := ⟨c.1, t⟩) h c.2).1
    have hafter : t.after (c :: rest) =
        (Scope.call ⟨c.1, t⟩ c.2).scope.throttler.after rest := rfl
    simp only [events, ByteEvent.total_append, hafter]
    dsimp only at hstep
    omega

end Throttler

end StakeGuard
