import StakeGuard.Proofs.Accounting
import StakeGuard.Scope

/-!
# Calls for bytes

A scope's calls ask for bytes, give bytes back, or concern the validators only. What becomes of a
request and of a return is said here of the budget before and after (`Budget.Request`,
`Budget.Return`). Main statement: whatever calls are made, and whatever becomes of the validators in
between, the accounts stay closed and every call has exactly the effect that it answers
(`Throttler.accounts_after_calls`).
-/

namespace StakeGuard

namespace Budget

variable {b b' : Budget} {node : NodeId} {size : UInt64}

/-- A request is granted whole, to the node that asked; or it is refused, and nothing is taken. -/
inductive Request (b : Budget) (node : NodeId) (size : UInt64) :
    Except ThrottleError PoolBytes → Budget → Prop
  | granted {grant : PoolBytes} {b' : Budget} (hcount : grant.count = size.toNat)
    (hdrawn : Drawn b b' node grant) : Request b node size (.ok grant) b'
  | refused {e : ThrottleError} {b' : Budget} (hremaining : b'.remaining = b.remaining)
    (husage : b'.usage = b.usage) : Request b node size (.error e) b'

/-- A return of what a node holds goes to the pool for everyone first; one of more changes nothing. -/
inductive Return (b : Budget) (node : NodeId) (size : UInt64) :
    Except ThrottleError PoolBytes → Budget → Prop
  | taken {returned : PoolBytes} {b' : Budget} (hsize : size.toNat ≤ (b.held node).count)
    (hcount : returned.count = size.toNat)
    (hfirst : returned.atLarge.toNat = min size.toNat (b.held node).atLarge.toNat)
    (hdrawn : Drawn b' b node returned) : Return b node size (.ok returned) b'
  | refused {e : ThrottleError} (hsize : (b.held node).count < size.toNat) :
    Return b node size (.error e) b

/-- The accounts are closed and only a node's own have been touched. -/
structure Sound (b b' : Budget) (node : NodeId) : Prop where
  closed : Closed b'
  alike : AlikeBut b b' node

theorem Closed.sound (h : Closed b) (node : NodeId) : Sound b b node := ⟨h, .refl b node⟩

/-- Taking bytes keeps the accounts closed, touches one node, and does to it what it answers. -/
theorem sound_acquire (h : Closed b) (node : NodeId) (size : UInt64) (stake : Stake) :
    Sound b (b.acquire node size stake).2 node ∧
      Request b node size (b.acquire node size stake).1 (b.acquire node size stake).2 := by
  rw [acquire]
  split
  · next grant hplan =>
    obtain ⟨hcount, hfits⟩ := fits_of_plan hplan
    obtain ⟨hclosed, hdrawn, halike⟩ := h.commit (hcount ▸ Amount.toNat_lt_bound size) hfits
    exact ⟨⟨hclosed, halike⟩, .granted hcount hdrawn⟩
  · next e hplan =>
    obtain ⟨hclosed, hremaining, husage, halike⟩ := h.markRefused node
    exact ⟨⟨hclosed, halike⟩, .refused hremaining husage⟩

/-- So does giving bytes back. -/
theorem sound_release (h : Closed b) (node : NodeId) (size : UInt64) :
    Sound b (b.release node size).2 node ∧
      Return b node size (b.release node size).1 (b.release node size).2 := by
  rcases Nat.lt_or_ge (b.held node).count size.toNat with hlt | hge
  · rw [h.release_of_lt hlt]
    exact ⟨h.sound node, .refused hlt⟩
  · obtain ⟨returned, b', heq, hcount, hfirst, hclosed, hdrawn, halike⟩ := h.release hge
    rw [heq]
    exact ⟨⟨hclosed, halike⟩, .taken hge hcount hfirst hdrawn⟩

end Budget

namespace Throttler

open Budget (Closed Sound Request Return)

variable {t : Throttler} (set : ValidatorSet) (node : NodeId) (size : UInt64)

theorem request_acquire (h : Closed t.budget) :
    Sound t.budget (t.acquire set node size).throttler.budget node ∧
      Request t.budget node size (t.acquire set node size).result
        (t.acquire set node size).throttler.budget := by
  have hsound := Budget.sound_acquire h node size (set.stake node)
  rw [acquire]
  split
  · next hzero =>
    rw [hzero]
    exact ⟨h.sound node, .granted rfl Budget.drawn_none⟩
  · split
    · next heq => rwa [heq] at hsound
    · next heq => rwa [heq] at hsound

/-- A request that is not called off is an ordinary one. -/
theorem acquireUnlessCancelled_never :
    t.acquireUnlessCancelled set .never node size = t.acquire set node size := by
  rw [acquireUnlessCancelled, if_neg nofun, acquire]
  split
  · rfl
  · rw [if_neg nofun, Budget.acquire]
    cases t.budget.plan node size (set.stake node) <;> rfl

theorem request_acquireUnlessCancelled (h : Closed t.budget) (cancellation : Cancellation) :
    Sound t.budget (t.acquireUnlessCancelled set cancellation node size).throttler.budget node ∧
      Request t.budget node size (t.acquireUnlessCancelled set cancellation node size).result
        (t.acquireUnlessCancelled set cancellation node size).throttler.budget := by
  cases cancellation with
  | never =>
    rw [acquireUnlessCancelled_never]
    exact request_acquire set node size h
  | before => exact ⟨h.sound node, .refused rfl rfl⟩
  | during =>
    rw [acquireUnlessCancelled, if_neg nofun]
    split
    · next hzero =>
      rw [hzero]
      exact ⟨h.sound node, .granted rfl Budget.drawn_none⟩
    · exact ⟨h.sound node, .refused rfl rfl⟩

theorem return_release (h : Closed t.budget) :
    Sound t.budget (t.release node size).throttler.budget node ∧
      Return t.budget node size (t.release node size).result
        (t.release node size).throttler.budget := by
  have hsound := Budget.sound_release h node size
  rw [release]
  split
  · next heq => rwa [heq] at hsound
  · next heq => rwa [heq] at hsound

end Throttler

namespace ScopeCall

/-- The node that a call asks for bytes for, and how many. -/
def asked? : ScopeCall → Option (NodeId × UInt64)
  | acquire node size | tryAcquire node size | acquireUnlessCancelled _ node size
  | acquirePermit node size => some (node, size)
  | _ => none

/-- The node that a call gives back bytes of, and how many. -/
def returned? : ScopeCall → Option (NodeId × UInt64)
  | release node size => some (node, size)
  | dropPermit permit => some (permit.node, permit.size)
  | _ => none

/-- The node whose bytes a call concerns. -/
def node? (call : ScopeCall) : Option NodeId := (call.asked?.or call.returned?).map (·.1)

/-- A call asks for bytes, gives some back, or concerns no node's. -/
theorem kinds (call : ScopeCall) :
    (∃ node size, call.asked? = some (node, size)) ∨
      (∃ node size, call.returned? = some (node, size)) ∨ call.node? = none := by
  cases call with
  | acquire | tryAcquire | acquireUnlessCancelled | acquirePermit => exact .inl ⟨_, _, rfl⟩
  | release | dropPermit => exact .inr (.inl ⟨_, _, rfl⟩)
  | change | register => exact .inr (.inr rfl)

/-- The answer to a call for bytes, from what became of them. -/
def answer (result : Except ThrottleError PoolBytes) : ScopeCall → Scope.Answer
  | tryAcquire .. => .granted result.isOk
  | acquirePermit node size => .ofPermit (result.map fun _ => ⟨node, size⟩)
  | dropPermit _ => .done
  | _ => .ofBytes result

end ScopeCall

namespace Scope

open Budget (Closed Sound Request Return)

variable {s : Scope} {call : ScopeCall} {node : NodeId} {size : UInt64}

/-- Every call that asks for bytes is a request that may be called off, worded in its own way. -/
theorem call_eq_of_asked (hasked : call.asked? = some (node, size)) :
    ∃ cancellation,
      (s.call call).answer = call.answer
        (s.throttler.acquireUnlessCancelled s.roster.set cancellation node size).result ∧
      (s.call call).scope.throttler =
        (s.throttler.acquireUnlessCancelled s.roster.set cancellation node size).throttler ∧
      (s.call call).signals =
        (s.throttler.acquireUnlessCancelled s.roster.set cancellation node size).signals := by
  cases call with
  | acquire n k | tryAcquire n k | acquirePermit n k =>
    cases hasked
    refine ⟨.never, ?_⟩
    rw [Throttler.acquireUnlessCancelled_never]
    exact ⟨rfl, rfl, rfl⟩
  | acquireUnlessCancelled cancellation n k =>
    cases hasked
    exact ⟨cancellation, rfl, rfl, rfl⟩
  | change | register | dropPermit | release => cases hasked

/-- A call that asks for bytes, in whatever words, is a request with the answer that it gives. -/
theorem call_of_asked (h : Closed s.throttler.budget) (hasked : call.asked? = some (node, size)) :
    ∃ result, (s.call call).answer = call.answer result ∧
      Sound s.throttler.budget (s.call call).scope.throttler.budget node ∧
      Request s.throttler.budget node size result (s.call call).scope.throttler.budget := by
  obtain ⟨cancellation, hanswer, hthrottler, -⟩ := call_eq_of_asked (s := s) hasked
  rw [hthrottler]
  exact ⟨_, hanswer,
    Throttler.request_acquireUnlessCancelled s.roster.set node size h cancellation⟩

theorem call_eq_of_returned (hreturned : call.returned? = some (node, size)) :
    (s.call call).answer = call.answer (s.throttler.release node size).result ∧
      (s.call call).scope.throttler = (s.throttler.release node size).throttler ∧
      (s.call call).signals = (s.throttler.release node size).signals := by
  cases call with
  | release | dropPermit =>
    cases hreturned
    exact ⟨rfl, rfl, rfl⟩
  | change | register | acquire | tryAcquire | acquireUnlessCancelled | acquirePermit =>
    cases hreturned

/-- A call that gives bytes back, by a permit or not, is a return with the answer that it gives. -/
theorem call_of_returned (h : Closed s.throttler.budget)
    (hreturned : call.returned? = some (node, size)) :
    ∃ result, (s.call call).answer = call.answer result ∧
      Sound s.throttler.budget (s.call call).scope.throttler.budget node ∧
      Return s.throttler.budget node size result (s.call call).scope.throttler.budget := by
  obtain ⟨hanswer, hthrottler, -⟩ := call_eq_of_returned (s := s) hreturned
  rw [hthrottler]
  exact ⟨_, hanswer, Throttler.return_release node size h⟩

/-- A call that is not about bytes leaves the throttler as it is. -/
theorem call_of_node?_none (hnode : call.node? = none) :
    (s.call call).scope.throttler = s.throttler := by
  cases call with
  | change request =>
    rw [Scope.call]
    split <;> rfl
  | register => rfl
  | acquire | tryAcquire | acquireUnlessCancelled | acquirePermit | release | dropPermit =>
    cases hnode

/-- After a call the accounts are closed, and only those of the node it concerns are touched. -/
theorem call_sound (h : Closed s.throttler.budget) (call : ScopeCall) :
    Closed (s.call call).scope.throttler.budget ∧
      (s.call call).scope.throttler.budget.config = s.throttler.budget.config ∧
      ∀ other, call.node? ≠ some other →
        (s.call call).scope.throttler.budget.usage.get? other =
          s.throttler.budget.usage.get? other ∧
        (s.call call).scope.throttler.budget.admission other =
          s.throttler.budget.admission other := by
  have hsound : ∀ node, call.node? = some node →
      Sound s.throttler.budget (s.call call).scope.throttler.budget node := by
    intro node hnode
    obtain ⟨⟨n, size⟩, hor, rfl⟩ := Option.map_eq_some_iff.mp hnode
    rcases Option.or_eq_some_iff.mp hor with hasked | ⟨-, hreturned⟩
    · obtain ⟨_, -, hsound, -⟩ := call_of_asked h hasked
      exact hsound
    · obtain ⟨_, -, hsound, -⟩ := call_of_returned h hreturned
      exact hsound
  cases hnode : call.node? with
  | none =>
    rw [call_of_node?_none hnode]
    exact ⟨h, rfl, fun _ _ => ⟨rfl, rfl⟩⟩
  | some node =>
    obtain ⟨hclosed, halike⟩ := hsound node hnode
    refine ⟨hclosed, halike.config_eq, fun other hother => ?_⟩
    have hne : other ≠ node := fun heq => hother (congrArg some heq.symm)
    exact ⟨halike.usage_eq other hne, halike.admission_eq other hne⟩

/-- A call leaves what nodes hold that it does not concern. -/
theorem held_call_of_ne (h : Closed s.throttler.budget) (hnode : call.node? ≠ some node) :
    (s.call call).scope.throttler.budget.held node = s.throttler.budget.held node :=
  Budget.held_congr ((call_sound h call).2.2 node hnode).1

end Scope

namespace Throttler

open Budget (Closed Request Return)

variable {config : ThrottleConfig} {t : Throttler} {signals : List Signal}

/-- The throttler after calls, each with the roster that there was at the time. -/
def after (t : Throttler) (calls : List (Roster × ScopeCall)) : Throttler :=
  calls.foldl (fun t c => (Scope.call ⟨c.1, t⟩ c.2).scope.throttler) t

/-- The accounts stay closed over any calls, whatever becomes of the validators in between. -/
theorem closed_after (h : Closed t.budget) (calls : List (Roster × ScopeCall)) :
    Closed (t.after calls).budget ∧ (t.after calls).budget.config = t.budget.config := by
  induction calls generalizing t with
  | nil => exact ⟨h, rfl⟩
  | cons c rest ih =>
    obtain ⟨hclosed, hconfig, -⟩ := Scope.call_sound (s := ⟨c.1, t⟩) h c.2
    obtain ⟨hrest, hsame⟩ := ih hclosed
    exact ⟨hrest, hsame.trans hconfig⟩

theorem budget_of_make (hmake : make config = .ok (t, signals)) :
    t.budget = .full config ∧ Closed t.budget := by
  rw [make] at hmake
  cases hvalid : config.validate with
  | error e => rw [hvalid] at hmake; cases hmake
  | ok =>
    rw [hvalid] at hmake
    cases hmake
    exact ⟨rfl, .full hvalid⟩

/-- Closed accounting: after any calls, between which the validators may change in any way, and one
more call. -/
theorem accounts_after_calls (hmake : make config = .ok (t, signals)) (label : String)
    (calls : List (Roster × ScopeCall)) (roster : Roster) (call : ScopeCall) :
    let before := (t.relabel label).1.after calls
    let reply := Scope.call ⟨roster, before⟩ call
    let b := before.budget
    let b' := reply.scope.throttler.budget
    b'.config = config ∧ Closed b' ∧
    (∀ node, b'.admission node = .exhausted → ∃ bytes, b'.usage.get? node = some bytes) ∧
    ((∀ node, b'.held node = .none) → b'.remaining = ⟨config.validatorPool, config.atLargePool⟩) ∧
    (∀ node size, call.asked? = some (node, size) →
      ∃ result, reply.answer = call.answer result ∧ Request b node size result b') ∧
    (∀ node size, call.returned? = some (node, size) →
      ∃ result, reply.answer = call.answer result ∧ Return b node size result b') ∧
    (∀ other, call.node? ≠ some other →
      b'.usage.get? other = b.usage.get? other ∧ b'.admission other = b.admission other) ∧
    (call.node? = none → b' = b) := by
  intro before reply b b'
  obtain ⟨hfull, hstart⟩ := budget_of_make hmake
  obtain ⟨hbefore, hsame⟩ := closed_after (t := (t.relabel label).1) hstart calls
  obtain ⟨hclosed, hconfig, helse⟩ :=
    Scope.call_sound (s := ⟨roster, before⟩) hbefore call
  have hpools : b'.config = config := by
    rw [hconfig, hsame]
    exact congrArg Budget.config hfull
  refine ⟨hpools, hclosed, ?_, ?_, ?_, ?_, helse, ?_⟩
  · intro node hexhausted
    rw [Budget.admission] at hexhausted
    split at hexhausted
    · next hrefused => exact Table.contains_iff.mp (hclosed.holds_of_refused hrefused)
    · split at hexhausted <;> cases hexhausted
  · intro hidle
    rw [hclosed.remaining_eq_of_idle hidle, hpools]
  · intro node size hasked
    obtain ⟨result, hanswer, -, hrequest⟩ :=
      Scope.call_of_asked (s := ⟨roster, before⟩) hbefore hasked
    exact ⟨result, hanswer, hrequest⟩
  · intro node size hreturned
    obtain ⟨result, hanswer, -, hreturn⟩ :=
      Scope.call_of_returned (s := ⟨roster, before⟩) hbefore hreturned
    exact ⟨result, hanswer, hreturn⟩
  · intro hnode
    exact congrArg Throttler.budget (Scope.call_of_node?_none hnode)

/-- One validator, with nobody listening. -/
def soleRoster : Roster := ⟨ValidatorSet.empty.run [.add .zero none none 1], []⟩

/-- A sole validator is granted ten bytes of its own pool and two of the other, and gives back five. -/
theorem accounts_after_split_return :
    let t : Throttler := ⟨defaultLabel, .full ⟨10, 6, 4⟩⟩
    let before := (t.relabel "scope").1.after [(soleRoster, .acquire .zero 12)]
    let reply := Scope.call ⟨soleRoster, before⟩ (.release .zero 5)
    make ⟨10, 6, 4⟩ = .ok (t, [t.pools]) ∧ before.budget.remaining = ⟨0, 4⟩ ∧
      Return before.budget .zero 5 (.ok ⟨3, 2⟩) reply.scope.throttler.budget := by
  have hmake : make ⟨10, 6, 4⟩ =
      .ok (⟨defaultLabel, .full ⟨10, 6, 4⟩⟩, [pools ⟨defaultLabel, .full ⟨10, 6, 4⟩⟩]) := by
    decide +kernel
  obtain ⟨-, -, -, -, -, hreturns, -⟩ := accounts_after_calls hmake "scope"
    [(soleRoster, .acquire .zero 12)] soleRoster (.release .zero 5)
  obtain ⟨result, hanswer, hreturn⟩ := hreturns .zero 5 rfl
  have hresult : ScopeCall.answer result (.release .zero 5) = .bytes ⟨3, 2⟩ := by
    rw [← hanswer]
    decide +kernel
  obtain rfl : result = .ok ⟨3, 2⟩ := by
    cases result with
    | error e => cases hresult
    | ok returned => cases hresult; rfl
  exact ⟨hmake, by decide +kernel, hreturn⟩

end Throttler

end StakeGuard
