import StakeGuard.Proofs.ByteEvents
import StakeGuard.Proofs.Entitlement

/-!
# Where a node stands

A refusal is noted of a node that holds bytes, and forgotten when the node is granted some or gives some
back. So where a node stands is decided by its own events alone: by whether it holds anything, and by
whether it was refused since it last took or gave back bytes (`ByteEvent.RefusedLast`). Main statement:
this describes every node after any calls, and no other event changes it
(`Throttler.standing_after_calls`).
-/

namespace StakeGuard

/-! ## Events that matter to where a node stands -/

namespace ByteEvent

/-- The node asks for some bytes, and is not called off. -/
def Asks (node : NodeId) (e : ByteEvent) : Prop :=
  e.move = .request ∧ e.node = node ∧ e.size ≠ 0 ∧ e.result ≠ .error (.cancelled node)

/-- The node asks for some bytes and is refused. -/
def Refuses (node : NodeId) (e : ByteEvent) : Prop := e.Asks node ∧ ¬e.result.isOk

/-- The node gives back some of its bytes. -/
def TakesBack (node : NodeId) (e : ByteEvent) : Prop :=
  e.move = .giveBack ∧ e.node = node ∧ e.size ≠ 0 ∧ e.result.isOk

/-- Events that say nothing of where a node stands. -/
inductive Idle (node : NodeId) (e : ByteEvent) : Prop
  | foreign (hnode : e.node ≠ node)
  | nothing (hsize : e.size = 0)
  | calledOff (hmove : e.move = .request) (hresult : e.result = .error (.cancelled e.node))
  | overReturn (hmove : e.move = .giveBack) (hresult : ¬e.result.isOk)

variable {node : NodeId} {e : ByteEvent} {events : List ByteEvent}

theorem Idle.not_asks (h : e.Idle node) : ¬e.Asks node := by
  rintro ⟨hmove, rfl, hsize, hlive⟩
  cases h with
  | foreign hnode => exact hnode rfl
  | nothing hzero => exact hsize hzero
  | calledOff _ hresult => exact hlive hresult
  | overReturn hback _ => cases hmove.symm.trans hback

theorem Idle.not_takesBack (h : e.Idle node) : ¬e.TakesBack node := by
  rintro ⟨hmove, hnode, hsize, hok⟩
  cases h with
  | foreign hother => exact hother hnode
  | nothing hzero => exact hsize hzero
  | calledOff hrequest _ => cases hmove.symm.trans hrequest
  | overReturn _ hresult => exact hresult hok

/-- The node was refused when it last asked for bytes, and has given none back since. -/
def RefusedLast (node : NodeId) (events : List ByteEvent) : Prop :=
  ∃ refusal later, (refusal :: later) <:+ events ∧ refusal.Refuses node ∧
    ∀ e ∈ later, ¬e.Asks node ∧ ¬e.TakesBack node

theorem not_refusedLast_nil : ¬RefusedLast node [] := by
  rintro ⟨refusal, later, hsuffix, -⟩
  cases List.suffix_nil.mp hsuffix

/-- The refusal is the last event, or came before it and the last event is none that matters. -/
theorem refusedLast_concat_iff :
    RefusedLast node (events ++ [e]) ↔
      e.Refuses node ∨ (¬e.Asks node ∧ ¬e.TakesBack node) ∧ RefusedLast node events := by
  constructor
  · rintro ⟨refusal, later, hsuffix, hrefuses, hlater⟩
    rcases List.suffix_concat_iff.mp hsuffix with hnil | ⟨front, hsplit, hfront⟩
    · cases hnil
    · cases front with
      | nil =>
        obtain ⟨rfl, -⟩ := List.cons.inj hsplit
        exact .inl hrefuses
      | cons first rest =>
        obtain ⟨rfl, rfl⟩ := List.cons.inj hsplit
        refine .inr ⟨hlater e (by simp), refusal, rest, hfront, hrefuses, fun x hx => ?_⟩
        exact hlater x (List.mem_append_left _ hx)
  · rintro (hrefuses | ⟨hidle, refusal, later, hsuffix, hrefuses, hlater⟩)
    · exact ⟨e, [], List.suffix_append _ _, hrefuses, nofun⟩
    · refine ⟨refusal, later ++ [e], ?_, hrefuses, fun x hx => ?_⟩
      · exact List.suffix_concat_iff.mpr (.inr ⟨refusal :: later, rfl, hsuffix⟩)
      · rcases List.mem_append.mp hx with hx | hx
        · exact hlater x hx
        · exact List.mem_singleton.mp hx ▸ hidle

end ByteEvent

/-! ## What one event does to where a node stands -/

namespace Budget

variable {b b' : Budget} {node : NodeId} {size : UInt64} {stake : Stake} {grant : PoolBytes}

theorem admission_eq_exhausted_iff : b.admission node = .exhausted ↔ b.refused.contains node := by
  unfold admission
  split
  · next h => exact iff_of_true rfl h
  · next h => split <;> simp [h]

namespace Closed

theorem contains_usage_iff (h : Closed b) : b.usage.contains node ↔ b.held node ≠ .none := by
  rw [Table.contains, h.get?_usage]
  by_cases hheld : b.held node = .none <;> simp [hheld]

theorem held_of_exhausted (h : Closed b) (hexhausted : b.admission node = .exhausted) :
    b.held node ≠ .none :=
  h.contains_usage_iff.mp (h.holds_of_refused (admission_eq_exhausted_iff.mp hexhausted))

/-- An idle node is one that holds nothing. -/
theorem admission_eq_idle_iff (h : Closed b) : b.admission node = .idle ↔ b.held node = .none := by
  rw [← Decidable.not_iff_not, ← ne_eq, ← ne_eq, ← h.contains_usage_iff]
  unfold admission
  split
  · next hrefused => simp [h.holds_of_refused hrefused]
  · split <;> simp [*]

/-- No more nodes are exhausted than are active. -/
theorem exhaustedNodes_le (h : Closed b) : b.exhaustedNodes ≤ b.activeNodes := by
  have hkeys : b.refused.keys ⊆ b.usage.keys := by
    intro node hnode
    have hrefused : b.refused.contains node :=
      Table.contains_iff.mpr (Table.mem_keys_iff.mp hnode)
    exact Table.mem_keys_iff.mpr (Table.contains_iff.mp (h.holds_of_refused hrefused))
  have hlength := (List.subperm_of_subset b.refused.keys_nodup hkeys).length_le
  simpa [Table.keys, exhaustedNodes, activeNodes, Table.size] using hlength

end Closed

/-- What an event does to where a node stands. -/
inductive Turn (b b' : Budget) (node : NodeId) (e : ByteEvent) : Prop
  | refused (hrefuses : e.Refuses node)
    (hadmission : b'.admission node = .exhausted ↔ b'.held node ≠ .none)
  | cleared (hmatters : e.Asks node ∨ e.TakesBack node) (hnot : ¬e.Refuses node)
    (hadmission : b'.admission node ≠ .exhausted)
  | kept (hasks : ¬e.Asks node) (htakes : ¬e.TakesBack node)
    (hadmission : b'.admission node = b.admission node)
    (hheld : b'.held node = b.held node)

/-- An event that is not of the node leaves it where it stands. -/
theorem Turn.of_idle {e : ByteEvent} (h : e.Idle node)
    (hadmission : b'.admission node = b.admission node) (hheld : b'.held node = b.held node) :
    Turn b b' node e :=
  .kept h.not_asks h.not_takesBack hadmission hheld

/-- An event leaves where every node but its own stands. -/
theorem Turn.of_own {e : ByteEvent} (halike : AlikeBut b b' e.node) (hown : Turn b b' e.node e)
    (node : NodeId) : Turn b b' node e := by
  by_cases hnode : node = e.node
  · rw [hnode]
    exact hown
  · exact .of_idle (.foreign (Ne.symm hnode)) (halike.admission_eq node hnode) (halike.held_eq hnode)

theorem exhausted_of_plan {e : ThrottleError} (h : b.plan node size stake = .error e) :
    ∃ available, e = .exhausted node size available := by
  simp only [plan] at h
  split at h
  · cases h
    exact ⟨_, rfl⟩
  · cases h

/-- A grant admits its node. -/
theorem turn_commit (hsize : size ≠ 0) (hplan : b.plan node size stake = .ok grant) :
    Turn b (b.commit node grant) node ⟨.request, node, size, .ok grant⟩ := by
  obtain ⟨hcount, -⟩ := fits_of_plan hplan
  have htotal : grant.total ≠ 0 := by
    intro hzero
    have hword := PoolBytes.toNat_total (hcount ▸ Amount.toNat_lt_bound size)
    rw [hzero, hcount] at hword
    exact hsize (UInt64.toNat_inj.mp hword.symm)
  refine .cleared (.inl ⟨rfl, rfl, hsize, nofun⟩) (fun hrefuses => hrefuses.2 rfl) ?_
  rw [ne_eq, admission_eq_exhausted_iff, commit, if_neg htotal]
  simp [Table.contains, Table.get?_erase]

namespace Closed

/-- A refusal exhausts its node, if that holds anything. -/
theorem turn_markRefused (h : Closed b) (hsize : size ≠ 0) {e : ThrottleError}
    (hplan : b.plan node size stake = .error e) :
    Turn b (b.markRefused node) node ⟨.request, node, size, .error e⟩ := by
  obtain ⟨available, rfl⟩ := exhausted_of_plan hplan
  obtain ⟨hclosed, -, husage, -⟩ := h.markRefused node
  refine .refused ⟨⟨rfl, rfl, hsize, nofun⟩, nofun⟩ ⟨hclosed.held_of_exhausted, fun hheld => ?_⟩
  have hholds : b.usage.contains node := by
    rw [← hclosed.contains_usage_iff, husage] at hheld
    exact hheld
  rw [admission_eq_exhausted_iff, Budget.markRefused, if_pos hholds]
  simp [Table.contains, Table.get?_insert]

end Closed

theorem turn_release (b : Budget) (node : NodeId) (size : UInt64) :
    Turn b (b.release node size).2 node ⟨.giveBack, node, size, (b.release node size).1⟩ := by
  unfold release
  split
  · next hzero => exact .of_idle (.nothing hzero) rfl rfl
  · next hsize =>
    dsimp only
    split
    · exact .of_idle (.overReturn rfl nofun) rfl rfl
    · refine .cleared (.inr ⟨rfl, rfl, hsize, rfl⟩) (fun hrefuses => nomatch hrefuses.1.1) ?_
      rw [ne_eq, admission_eq_exhausted_iff]
      simp [Table.contains, Table.get?_erase]

end Budget

namespace Throttler

open Budget (Closed Turn)

variable {t : Throttler}

theorem turn_acquireUnlessCancelled (h : Closed t.budget) (set : ValidatorSet)
    (cancellation : Cancellation) (node : NodeId) (size : UInt64) :
    let reply := t.acquireUnlessCancelled set cancellation node size
    Turn t.budget reply.throttler.budget node ⟨.request, node, size, reply.result⟩ := by
  unfold acquireUnlessCancelled
  split
  · exact .of_idle (.calledOff rfl rfl) rfl rfl
  split
  · next hzero => exact .of_idle (.nothing hzero) rfl rfl
  next hsize =>
  split
  · exact .of_idle (.calledOff rfl rfl) rfl rfl
  split
  · next hplan => exact Budget.turn_commit hsize hplan
  · next hplan => exact h.turn_markRefused hsize hplan

theorem turn_release (t : Throttler) (node : NodeId) (size : UInt64) :
    let reply := t.release node size
    Turn t.budget reply.throttler.budget node ⟨.giveBack, node, size, reply.result⟩ := by
  have hturn := t.budget.turn_release node size
  unfold release
  split
  · next heq => rwa [heq] at hturn
  · next heq => rwa [heq] at hturn

end Throttler

namespace Scope

open Budget (Closed Turn)

variable {s : Scope} {call : ScopeCall} {node : NodeId} {e : ByteEvent}

/-- Every event takes a node where its turn says. -/
theorem turn (h : Closed s.throttler.budget) (node : NodeId) (hevent : s.event? call = some e) :
    Turn s.throttler.budget (s.call call).scope.throttler.budget node e := by
  cases s.amounts call with
  | @request asker size _ hreply _ heq _ hthrottler =>
    subst hreply
    cases hevent.symm.trans heq
    obtain ⟨⟨-, halike⟩, -⟩ := Throttler.request_acquireUnlessCancelled s.roster.set asker size h
      call.cancellation
    rw [hthrottler]
    exact .of_own halike
      (Throttler.turn_acquireUnlessCancelled h s.roster.set call.cancellation asker size) node
  | @giveBack holder size _ hreply _ heq hthrottler =>
    subst hreply
    cases hevent.symm.trans heq
    obtain ⟨⟨-, halike⟩, -⟩ := Throttler.return_release holder size h
    rw [hthrottler]
    exact .of_own halike (s.throttler.turn_release holder size) node
  | neither _ heq => cases hevent.symm.trans heq

theorem throttler_of_event?_none (hevent : s.event? call = none) :
    (s.call call).scope.throttler = s.throttler := by
  cases s.amounts call with
  | request _ _ heq | giveBack _ _ heq => cases hevent.symm.trans heq
  | neither _ _ hthrottler => exact hthrottler

/-- A call that makes no event, or an idle one, leaves where the node stands. -/
theorem admission_of_idle (h : Closed s.throttler.budget)
    (hidle : ∀ e, s.event? call = some e → e.Idle node) :
    (s.call call).scope.throttler.budget.admission node = s.throttler.budget.admission node := by
  cases hevent : s.event? call with
  | none => rw [throttler_of_event?_none hevent]
  | some e =>
    have he := hidle e hevent
    cases turn h node hevent with
    | refused hrefuses => exact absurd hrefuses.1 he.not_asks
    | cleared hmatters => exact absurd hmatters (not_or.mpr ⟨he.not_asks, he.not_takesBack⟩)
    | kept _ _ hadmission => exact hadmission

end Scope

/-! ## Where a node stands after a run -/

namespace Throttler

open Budget (Closed Turn)
open ByteEvent (RefusedLast)

variable {config : ThrottleConfig} {t : Throttler} {signals : List Signal} {node : NodeId}

/-- By induction from the end of the run: the last event decides, or leaves it to those before. -/
theorem admission_after_eq_exhausted_iff (h : Closed t.budget)
    (hfresh : t.budget.admission node ≠ .exhausted) (calls : List (Roster × ScopeCall)) :
    (t.after calls).budget.admission node = .exhausted ↔
      (t.after calls).budget.held node ≠ .none ∧ RefusedLast node (t.events calls) := by
  induction calls using List.reverseRecOn with
  | nil => exact iff_of_false hfresh fun hlast => ByteEvent.not_refusedLast_nil hlast.2
  | append_singleton calls c ih =>
    obtain ⟨roster, call⟩ := c
    have hclosed := (closed_after h calls).1
    rw [after_append, events_concat]
    change (Scope.call ⟨roster, t.after calls⟩ call).scope.throttler.budget.admission node = _ ↔
      (Scope.call ⟨roster, t.after calls⟩ call).scope.throttler.budget.held node ≠ _ ∧ _
    cases hevent : Scope.event? ⟨roster, t.after calls⟩ call with
    | none =>
      rw [Scope.throttler_of_event?_none hevent, Option.toList_none, List.append_nil]
      exact ih
    | some e =>
      rw [Option.toList_some, ByteEvent.refusedLast_concat_iff]
      cases Scope.turn (s := ⟨roster, t.after calls⟩) hclosed node hevent with
      | refused hrefuses hadmission => simp [hadmission, hrefuses]
      | cleared hmatters hnot hadmission =>
        refine iff_of_false hadmission ?_
        rintro ⟨-, hrefuses | ⟨⟨hasks, htakes⟩, -⟩⟩
        · exact hnot hrefuses
        · exact hmatters.elim hasks htakes
      | kept hasks htakes hadmission hheld =>
        have hnot : ¬e.Refuses node := fun hrefuses => hasks hrefuses.1
        rw [hadmission, hheld, ih]
        simp [hasks, htakes, hnot]

/-- **Where a node stands is decided by its own events.** After any calls, between which the validators
may change in any way, a node holds what its requests took less what it gave back. It is idle where
that is nothing. Otherwise it is exhausted where it was refused when it last asked for bytes and has
given none back since, and admitted where not. Calls of other nodes or for no bytes, requests that are
called off and returns that fail leave it so, and no more nodes are exhausted than hold bytes. -/
theorem standing_after_calls (hmake : make config = .ok (t, signals)) (label : String)
    (calls : List (Roster × ScopeCall)) (node : NodeId) :
    let last := (t.relabel label).1.after calls
    let events := (t.relabel label).1.events calls
    (last.budget.held node).count + ByteEvent.total .giveBack node events =
      ByteEvent.total .request node events ∧
    (last.budget.admission node = .idle ↔ last.budget.held node = .none) ∧
    (last.budget.admission node = .exhausted ↔
      last.budget.held node ≠ .none ∧ RefusedLast node events) ∧
    (last.budget.admission node = .admitted ↔
      last.budget.held node ≠ .none ∧ ¬RefusedLast node events) ∧
    (∀ roster call,
      (∀ e, Scope.event? ⟨roster, last⟩ call = some e → e.Idle node) →
      (Scope.call ⟨roster, last⟩ call).scope.throttler.budget.admission node =
        last.budget.admission node) ∧
    last.budget.exhaustedNodes ≤ last.budget.activeNodes := by
  intro last events
  obtain ⟨hfull, hstart⟩ := budget_of_make hmake
  have hfresh : (t.relabel label).1.budget = .full config := hfull
  have hclosed : Closed last.budget := (closed_after (t := (t.relabel label).1) hstart calls).1
  have hcount := count_held_after (t := (t.relabel label).1) hstart calls node
  have hidle : last.budget.admission node = .idle ↔ last.budget.held node = .none :=
    hclosed.admission_eq_idle_iff
  have hexhausted : last.budget.admission node = .exhausted ↔
      last.budget.held node ≠ .none ∧ RefusedLast node events := by
    refine admission_after_eq_exhausted_iff (t := (t.relabel label).1) hstart ?_ calls
    rw [hfresh]
    exact nofun
  refine ⟨?_, hidle, hexhausted, ?_, fun roster call => ?_, hclosed.exhaustedNodes_le⟩
  · rw [hcount, hfresh]
    exact Nat.zero_add _
  · cases hadmission : last.budget.admission node with
    | idle => simp [hidle.mp hadmission]
    | admitted =>
      have hheld : last.budget.held node ≠ .none := by
        rw [← hidle.ne, hadmission]
        nofun
      have hnot : ¬RefusedLast node events := fun hrefused => by
        cases hadmission.symm.trans (hexhausted.mpr ⟨hheld, hrefused⟩)
      exact iff_of_true rfl ⟨hheld, hnot⟩
    | exhausted => simp [hexhausted.mp hadmission]
  · exact Scope.admission_of_idle (s := ⟨roster, last⟩) hclosed

/-- A node that holds three bytes is refused more; then a request of it is called off, and it gives back
more than it holds and nothing at all. -/
def refusedCalls : List (Roster × ScopeCall) :=
  [(.empty, .acquire .zero 3), (.empty, .tryAcquire .zero 9),
    (.empty, .acquireUnlessCancelled .before .zero 1), (.empty, .release .zero 4),
    (.empty, .release .zero 0)]

/-- A node that holds bytes and was refused more is exhausted, and giving back too much does not change
that. -/
theorem standing_after_refusal :
    let start := (scarce.relabel "scope").1
    let last := start.after refusedCalls
    make ⟨10, 6, 4⟩ = .ok (scarce, [scarce.pools]) ∧
      last.budget.admission .zero = .exhausted ∧ RefusedLast .zero (start.events refusedCalls) ∧
      (Scope.call ⟨.empty, last⟩ (.release .zero 4)).scope.throttler.budget.admission .zero =
        last.budget.admission .zero := by
  have hmake : make ⟨10, 6, 4⟩ = .ok (scarce, [scarce.pools]) := by decide +kernel
  have hexhausted :
      ((scarce.relabel "scope").1.after refusedCalls).budget.admission .zero = .exhausted := by
    decide +kernel
  have hover :
      ¬(((scarce.relabel "scope").1.after refusedCalls).release .zero 4).result.isOk := by
    decide +kernel
  have hidle (t : Throttler) (hresult : ¬(t.release .zero 4).result.isOk) :
      ∀ e, Scope.event? ⟨.empty, t⟩ (.release .zero 4) = some e → e.Idle .zero := by
    rintro e ⟨⟩
    exact .overReturn rfl hresult
  obtain ⟨-, -, hrefused, -, hkept, -⟩ := standing_after_calls hmake "scope" refusedCalls .zero
  exact ⟨hmake, hexhausted, (hrefused.mp hexhausted).2,
    hkept .empty (.release .zero 4) (hidle _ hover)⟩

end Throttler

end StakeGuard
