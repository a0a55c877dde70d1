import StakeGuard.Proofs.ByteEvents
import StakeGuard.Proofs.Gauges
import StakeGuard.Proofs.TableSum

/-!
# Refusals in the counters

A request for bytes that is refused is counted under the label of the throttler and the reason, with one
exception: a request that is called off before it is looked at is answered at once, and nothing is
counted. So the refusals that are counted in a run and one for each of these are the errors that were
answered (`Throttler.refusals_perm`). Main statement: so much do the counters fall short of the refused
requests, and in nothing else, whoever else counts at the same time (`Throttler.refusals_after_calls`).
-/

namespace StakeGuard

/-! ## Counters -/

namespace Table

variable {K V : Type} [DecidableEq K]

theorem retain_insert (p : K → V → Bool) (t : Table K V) (k : K) (v : V) :
    (t.insert k v).retain p = if p k v then (t.retain p).insert k v else (t.retain p).erase k := by
  have herase : (t.erase k).entries.filter (fun e => p e.1 e.2) = ((t.retain p).erase k).entries := by
    simp only [erase, retain, List.filter_filter, Bool.and_comm]
  cases hp : p k v <;> simp [retain, insert, hp, herase]

end Table

namespace Metrics

theorem count_increment (counter : Table (String × String) Nat) (key label : String × String) :
    count (increment counter key) label =
      count counter label + if decide (key = label) then 1 else 0 := by
  unfold count increment
  rw [Table.get?_insert]
  by_cases hkey : key = label
  · simp [hkey, count]
  · simp [hkey, Ne.symm hkey]

theorem sum_increment (counter : Table (String × String) Nat) (key : String × String) :
    (increment counter key).sum id = counter.sum id + 1 := by
  unfold increment count
  rw [Table.sum_insert]
  cases hvalue : counter.get? key with
  | none =>
    rw [Table.sum_erase_of_none id hvalue]
    exact Nat.add_comm _ _
  | some value =>
    rw [← Table.add_sum_erase id hvalue]
    exact Nat.add_right_comm _ _ _

/-- All that a counter has under labels of some kind. -/
def countAll (counter : Table (String × String) Nat) (p : String × String → Bool) : Nat :=
  (counter.retain fun key _ => p key).sum id

theorem countAll_increment (counter : Table (String × String) Nat) (key : String × String)
    (p : String × String → Bool) :
    countAll (increment counter key) p = countAll counter p + if p key then 1 else 0 := by
  have hget := Table.get?_retain (fun key _ => p key) counter key
  unfold countAll
  cases hp : p key with
  | false =>
    rw [increment, Table.retain_insert, hp]
    refine Table.sum_erase_of_none id (hget.trans ?_)
    cases counter.get? key <;> simp [hp]
  | true =>
    have hkept : (counter.retain fun key _ => p key).get? key = counter.get? key := by
      rw [hget]
      cases counter.get? key <;> simp [hp]
    have hsame : (increment counter key).retain (fun key _ => p key) =
        increment (counter.retain fun key _ => p key) key := by
      simp [increment, count, Table.retain_insert, hkept, hp]
    rw [hsame, sum_increment]
    rfl

/-- What every key of a kind adds one to is larger by the number of such keys. -/
theorem foldl_increment (measure : Table (String × String) Nat → Nat) {p : String × String → Bool}
    (hmeasure : ∀ counter key,
      measure (increment counter key) = measure counter + if p key then 1 else 0)
    (counter : Table (String × String) Nat) (keys : List (String × String)) :
    measure (keys.foldl increment counter) = measure counter + keys.countP p := by
  induction keys generalizing counter with
  | nil => rfl
  | cons key rest ih =>
    rw [List.foldl_cons, ih, hmeasure, List.countP_cons]
    omega

end Metrics

/-- The label and the reason that a signal counts a refusal under. -/
def Signal.refusal? : Signal → Option (String × String)
  | .refused scope reason => some (scope, reason)
  | .pools .. | .verified | .rejected .. => none

namespace Metrics

/-- What every signal of a kind adds to, and no other signal, is what all signals of the kind make of it. -/
theorem fold_observeAll {α β : Type} {part : Metrics → α} {kind? : Signal → Option β} {add : α → β → α}
    (hobserve : ∀ m signal, part (m.observe signal) = (kind? signal).elim (part m) (add (part m)))
    (m : Metrics) (signals : List Signal) :
    part (m.observeAll signals) = (signals.filterMap kind?).foldl add (part m) := by
  induction signals generalizing m with
  | nil => rfl
  | cons signal rest ih =>
    have hrest := ih (m.observe signal)
    rw [hobserve] at hrest
    cases hkind : kind? signal with
    | none =>
      rw [List.filterMap_cons_none hkind]
      rwa [hkind] at hrest
    | some b =>
      rw [List.filterMap_cons_some hkind]
      rwa [hkind] at hrest

/-- The counters of refusals grow by the refusals among the signals. -/
theorem refusals_observeAll (m : Metrics) (signals : List Signal) :
    (m.observeAll signals).refusals =
      (signals.filterMap Signal.refusal?).foldl increment m.refusals :=
  fold_observeAll (fun _ signal => by cases signal <;> rfl) m signals

/-- All refusals under a label, for whatever reason. -/
def refusalsUnder (m : Metrics) (label : String) : Nat := countAll m.refusals (·.1 = label)

variable (signals : List Signal)

theorem count_refusals (key : String × String) :
    count (empty.observeAll signals).refusals key =
      (signals.filterMap Signal.refusal?).countP (· = key) := by
  rw [refusals_observeAll,
    foldl_increment (count · key) fun counter increased => count_increment counter increased key]
  exact Nat.zero_add _

theorem refusalsUnder_observeAll (label : String) :
    (empty.observeAll signals).refusalsUnder label =
      (signals.filterMap Signal.refusal?).countP (·.1 = label) := by
  rw [refusalsUnder, refusals_observeAll,
    foldl_increment (countAll · _) fun counter key => countAll_increment counter key _]
  exact Nat.zero_add _

end Metrics

/-! ## Errors and what is counted of them -/

/-- The error that a request for bytes ended with. -/
def ByteEvent.refusal? : ByteEvent → Option ThrottleError
  | ⟨.request, _, _, .error e⟩ => some e
  | _ => none

namespace ScopeCall

variable {call : ScopeCall}

/-- The call is called off before it is looked at. -/
def calledOff (call : ScopeCall) : Bool := call.cancellation = .before

theorem calledOff_of_not_asked (hasked : call.asked? = none) : call.calledOff = false := by
  cases call with
  | change | register | dropPermit | release => rfl
  | acquire | tryAcquire | acquireUnlessCancelled | acquirePermit => cases hasked

end ScopeCall

namespace Throttler

theorem refusals_acquireUnlessCancelled (t : Throttler) (set : ValidatorSet)
    (cancellation : Cancellation) (node : NodeId) (size : UInt64) :
    let reply := t.acquireUnlessCancelled set cancellation node size
    reply.signals.filterMap Signal.refusal? ++
        (if cancellation = .before then [(t.label, "cancelled")] else []) =
      ([⟨.request, node, size, reply.result⟩].filterMap ByteEvent.refusal?).map
        fun e => (t.label, e.reason) := by
  unfold acquireUnlessCancelled
  split
  · rfl
  split
  · rfl
  split
  · rfl
  split <;> rfl

theorem refusals_release (t : Throttler) (node : NodeId) (size : UInt64) :
    (t.release node size).signals.filterMap Signal.refusal? = [] := by
  unfold release
  split <;> rfl

end Throttler

namespace Scope

/-- A reply that refuses a request for bytes. -/
def Reply.denies (call : ScopeCall) (reply : Reply) : Bool :=
  call.asked?.isSome && !reply.answer.grants

variable (s : Scope) (call : ScopeCall)

/-- What a call has counted, with one more if it was called off before it was looked at, is what it
refused. -/
theorem refusals_call :
    (s.call call).signals.filterMap Signal.refusal? ++
        (if call.calledOff then [(s.throttler.label, "cancelled")] else []) =
      ((s.event? call).toList.filterMap ByteEvent.refusal?).map
        fun e => (s.throttler.label, e.reason) := by
  cases s.amounts call with
  | @request asker size _ hreply _ hevent _ _ hsignals =>
    have hrefusals := s.throttler.refusals_acquireUnlessCancelled s.roster.set call.cancellation
      asker size
    rw [hsignals, hevent, ← hreply]
    simpa [ScopeCall.calledOff] using hrefusals
  | giveBack hreply hasked hevent _ hsignals =>
    rw [hsignals, hevent, ← hreply, Throttler.refusals_release,
      ScopeCall.calledOff_of_not_asked hasked]
    rfl
  | neither hasked hevent _ hsignals =>
    rw [hsignals, hevent, ScopeCall.calledOff_of_not_asked hasked]
    rfl

/-- A call is refused exactly if its event is. -/
theorem denies_call :
    ((s.event? call).toList.filterMap ByteEvent.refusal?).length =
      if (s.call call).denies call then 1 else 0 := by
  unfold Reply.denies
  cases s.amounts call with
  | @request _ _ reply _ hasked hevent hanswer =>
    rw [hevent, hanswer, grants_answer hasked, hasked]
    cases reply.result <;> rfl
  | giveBack _ hasked hevent =>
    rw [hevent, hasked]
    rfl
  | neither hasked hevent =>
    rw [hevent, hasked]
    rfl

end Scope

/-! ## Runs -/

namespace ThrottleError

variable {e : ThrottleError}

theorem reason_eq_exhausted_iff : e.reason = "exhausted" ↔ e.kind = "Exhausted" := by
  cases e <;> simp [reason, kind]

theorem reason_eq_cancelled_iff : e.reason = "cancelled" ↔ e.kind = "Cancelled" := by
  cases e <;> simp [reason, kind]

end ThrottleError

namespace Throttler

variable {t : Throttler} {log others : List Signal} {calls : List (Roster × ScopeCall)}

/-- Calls and the replies to them, each made with the roster that there was at the time. -/
def replies (t : Throttler) : List (Roster × ScopeCall) → List (ScopeCall × Scope.Reply)
  | [] => []
  | (roster, call) :: rest =>
    let reply := Scope.call ⟨roster, t⟩ call
    (call, reply) :: reply.scope.throttler.replies rest

/-- All that calls have to report to the counters. -/
def signals (t : Throttler) (calls : List (Roster × ScopeCall)) : List Signal :=
  (t.replies calls).flatMap (·.2.signals)

/-- How many requests for bytes are refused. -/
def denials (t : Throttler) (calls : List (Roster × ScopeCall)) : Nat :=
  (t.replies calls).countP fun (call, reply) => reply.denies call

/-- The errors that requests for bytes end with. -/
def errors (t : Throttler) (calls : List (Roster × ScopeCall)) : List ThrottleError :=
  (t.events calls).filterMap ByteEvent.refusal?

/-- How many requests are called off before they are looked at. -/
def calledOff (calls : List (Roster × ScopeCall)) : Nat := calls.countP (·.2.calledOff)

theorem length_errors (t : Throttler) (calls : List (Roster × ScopeCall)) :
    (t.errors calls).length = t.denials calls := by
  induction calls generalizing t with
  | nil => rfl
  | cons c rest ih =>
    obtain ⟨roster, call⟩ := c
    have hstep := Scope.denies_call ⟨roster, t⟩ call
    have hrest := ih (Scope.call ⟨roster, t⟩ call).scope.throttler
    simp only [errors, denials] at hrest ⊢
    rw [events, List.filterMap_append, List.length_append, hstep, hrest, replies, List.countP_cons,
      Nat.add_comm]

theorem replicate_calledOff_cons (c : Roster × ScopeCall) (rest : List (Roster × ScopeCall))
    (key : String × String) :
    List.replicate (calledOff (c :: rest)) key =
      (if c.2.calledOff then [key] else []) ++ List.replicate (calledOff rest) key := by
  unfold calledOff
  rw [List.countP_cons]
  cases c.2.calledOff <;> rfl

/-- The refusals that are counted, and one for each request called off before it is looked at, are the
errors. -/
theorem refusals_perm (t : Throttler) (calls : List (Roster × ScopeCall)) :
    ((t.signals calls).filterMap Signal.refusal? ++
        List.replicate (calledOff calls) (t.label, "cancelled")).Perm
      ((t.errors calls).map fun e => (t.label, e.reason)) := by
  induction calls generalizing t with
  | nil => exact .refl _
  | cons c rest ih =>
    obtain ⟨roster, call⟩ := c
    have hstep := Scope.refusals_call ⟨roster, t⟩ call
    have hrest := ih (Scope.call ⟨roster, t⟩ call).scope.throttler
    rw [Scope.label_call] at hrest
    simp only [errors, signals] at hrest ⊢
    rw [replies, List.flatMap_cons, events, List.filterMap_append, List.filterMap_append,
      List.map_append, replicate_calledOff_cons, ← hstep, List.append_assoc, List.append_assoc]
    -- what is missing of this call is last in the list of the run: it changes places with the rest
    exact .append_left _ ((List.perm_append_comm_assoc ..).trans (.append_left _ hrest))

/-- What the counters have of the refusals with a property, and the requests called off before they are
looked at where these have it, are the errors that have it. -/
theorem countP_refusals (hlog : log.Perm (t.signals calls ++ others)) (p : String × String → Bool)
    (hothers : ∀ key ∈ others.filterMap Signal.refusal?, ¬p key) :
    (log.filterMap Signal.refusal?).countP p +
        (if p (t.label, "cancelled") then calledOff calls else 0) =
      (t.errors calls).countP fun e => p (t.label, e.reason) := by
  have hown := (t.refusals_perm calls).countP_eq p
  rw [List.countP_append, List.countP_replicate, List.countP_map] at hown
  rw [(hlog.filterMap _).countP_eq, List.filterMap_append, List.countP_append,
    List.countP_eq_zero.mpr hothers, Nat.add_zero, hown]
  rfl

/-- **Refused requests are counted once, unless they are called off before they are looked at.** In any
run of a throttler, whatever else is counted in between under other labels, the refusals under its label
and the requests called off before they were looked at are together as many as the requests that were
refused. Those refused for want of bytes are counted as exhausted. Those called off are counted as
cancelled where they were looked at, and not at all where they were not. -/
theorem refusals_after_calls (hlog : log.Perm (t.signals calls ++ others))
    (hothers : ∀ signal ∈ others, ∀ reason, signal ≠ .refused t.label reason) :
    let m := Metrics.empty.observeAll log
    m.refusalsUnder t.label + calledOff calls = t.denials calls ∧
    Metrics.count m.refusals (t.label, "exhausted") =
      (t.errors calls).countP (·.kind = "Exhausted") ∧
    Metrics.count m.refusals (t.label, "cancelled") + calledOff calls =
      (t.errors calls).countP (·.kind = "Cancelled") := by
  intro m
  have hforeign : ∀ key ∈ others.filterMap Signal.refusal?, key.1 ≠ t.label := by
    intro key hkey hlabel
    obtain ⟨signal, hmem, hrefusal⟩ := List.mem_filterMap.mp hkey
    cases signal with
    | refused scope reason =>
      cases hrefusal
      exact hothers _ hmem reason (hlabel ▸ rfl)
    | pools | verified | rejected => cases hrefusal
  have hreason (reason : String) :
      ∀ key ∈ others.filterMap Signal.refusal?, ¬decide (key = (t.label, reason)) :=
    fun key hkey heq => hforeign key hkey (congrArg Prod.fst (of_decide_eq_true heq))
  refine ⟨?_, ?_, ?_⟩
  · have hall := countP_refusals hlog (·.1 = t.label) (by simpa using hforeign)
    rw [Metrics.refusalsUnder_observeAll, ← length_errors]
    simpa using hall
  · have hexhausted := countP_refusals hlog (· = (t.label, "exhausted")) (hreason _)
    rw [Metrics.count_refusals]
    simpa [ThrottleError.reason_eq_exhausted_iff] using hexhausted
  · have hcancelled := countP_refusals hlog (· = (t.label, "cancelled")) (hreason _)
    rw [Metrics.count_refusals]
    simpa [ThrottleError.reason_eq_cancelled_iff] using hcancelled

/-- A grant, and a request of every wording that is refused; one is called off while it is planned, one
before. A request for nothing and a return of too much are no refused requests. -/
def refusingCalls : List (Roster × ScopeCall) :=
  [(.empty, .acquire .zero 3), (.empty, .acquire .zero 9), (.empty, .tryAcquire .zero 9),
    (.empty, .acquireUnlessCancelled .during .zero 1),
    (.empty, .acquireUnlessCancelled .before .zero 1), (.empty, .acquirePermit .zero 0),
    (.empty, .acquirePermit ⟨.ofNat 20 1⟩ 5), (.empty, .release .zero 4)]

/-- What others have counted in the meantime. -/
def foreignSignals : List Signal := [.refused "other" "exhausted", .verified]

/-- Of five requests that are denied four are counted; the fifth was called off before it was looked at.
-/
theorem refusals_after_refusing_calls :
    let start := (scarce.relabel "scope").1
    let log := foreignSignals ++ start.signals refusingCalls
    let m := Metrics.empty.observeAll log
    log.Perm (start.signals refusingCalls ++ foreignSignals) ∧
      (∀ signal ∈ foreignSignals, ∀ reason, signal ≠ .refused "scope" reason) ∧
      start.denials refusingCalls = 5 ∧ calledOff refusingCalls = 1 ∧
      m.refusalsUnder "scope" + 1 = 5 ∧
      Metrics.count m.refusals ("scope", "exhausted") = 3 ∧
      Metrics.count m.refusals ("scope", "cancelled") + 1 = 2 := by
  have hlog : (foreignSignals ++ (scarce.relabel "scope").1.signals refusingCalls).Perm
      ((scarce.relabel "scope").1.signals refusingCalls ++ foreignSignals) :=
    List.perm_append_comm
  have hforeign : ∀ signal ∈ foreignSignals, ∀ reason, signal ≠ .refused "scope" reason := by
    simp [foreignSignals]
  have hdenials : (scarce.relabel "scope").1.denials refusingCalls = 5 := by decide +kernel
  have hearly : calledOff refusingCalls = 1 := by decide +kernel
  have hexhausted : ((scarce.relabel "scope").1.errors refusingCalls).countP
      (·.kind = "Exhausted") = 3 := by
    decide +kernel
  have hcancelled : ((scarce.relabel "scope").1.errors refusingCalls).countP
      (·.kind = "Cancelled") = 2 := by
    decide +kernel
  have hcounts := refusals_after_calls hlog hforeign
  rw [hdenials, hearly, hexhausted, hcancelled] at hcounts
  exact ⟨hlog, hforeign, hdenials, hearly, hcounts⟩

/-- A refused request that no counter has: it was called off before it was looked at. -/
theorem refusals_ne_denials :
    let start := (scarce.relabel "scope").1
    let calls := [(Roster.empty, ScopeCall.acquireUnlessCancelled .before .zero 1)]
    let m := Metrics.empty.observeAll (start.signals calls)
    make ⟨10, 6, 4⟩ = .ok (scarce, [scarce.pools]) ∧
      start.errors calls = [.cancelled .zero] ∧ start.denials calls = 1 ∧
      m.refusalsUnder start.label = 0 ∧
      Metrics.count m.refusals (start.label, "cancelled") = 0 := by
  decide +kernel

end Throttler

end StakeGuard
