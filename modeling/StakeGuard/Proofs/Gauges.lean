import Mathlib.Data.Set.Card
import StakeGuard.Proofs.Bookkeeping
import StakeGuard.Proofs.Entitlement

/-!
# What the gauges of a subnet show

A throttler sets the gauges under its label whenever it grants bytes or takes some back, and every scope
of a subnet has the same label, detached or not. So the gauges of a subnet show the scope that was last
to publish, as it is now (`Registry.exports_of_latest`). Main statement: they show the active scope
unless a detached one was last to publish, and in that case the detached one
(`Registry.gauges_of_active`).
-/

namespace StakeGuard

/-! ## Labels -/

theorem Text.Hex.text_injective : Function.Injective text := by
  intro a b htext
  have hencode : encode a = encode b := String.ofList_injective htext
  have hdecode := decode_encode a
  rw [hencode, decode_encode] at hdecode
  exact (Except.ok.inj hdecode).symm

/-- Different identifiers have different texts, so the labels of different subnets differ. -/
theorem Identifier.text_injective {kind : IdentifierKind} :
    Function.Injective (text : Identifier kind → String) := by
  rintro ⟨⟨a, _⟩⟩ ⟨⟨b, _⟩⟩ htext
  obtain rfl : a = b := Text.Hex.text_injective htext
  rfl

/-- No subnet has the label of a throttler that was given none. -/
theorem Identifier.text_ne_defaultLabel (subnet : SubnetId) :
    subnet.text ≠ Throttler.defaultLabel := by
  intro htext
  have hencode : Text.Hex.encode subnet.bytes = ['d', 'e', 'f', 'a', 'u', 'l', 't'] :=
    String.ofList_injective htext
  have hlength := Text.Hex.length_utf8_encode subnet.bytes
  rw [hencode, bytes, subnet.raw.length_bytes] at hlength
  exact absurd hlength (by decide)

/-! ## Gauges -/

namespace Budget

variable {b : Budget}

/-- The nodes that hold bytes. -/
def holders (b : Budget) : Set NodeId := {node | b.held node ≠ .none}

theorem Closed.activeNodes_eq (h : Closed b) : b.activeNodes = b.holders.ncard := by
  have hkeys : b.holders = b.usage.keys.toFinset := by
    ext node
    rw [List.coe_toFinset, Set.mem_ofPred_eq, Table.mem_keys_iff, holders, Set.mem_ofPred_eq, held]
    cases hbytes : b.usage.get? node with
    | none => simp
    | some bytes => simpa using h.ne_none hbytes
  rw [hkeys, Set.ncard_coe_finset, List.toFinset_card_of_nodup b.usage.keys_nodup, Table.keys,
    List.length_map]
  rfl

end Budget

/-- The label under which a signal sets the gauges. -/
def Signal.gauged? : Signal → Option String
  | .pools scope .. => some scope
  | .refused .. | .verified | .rejected .. => none

namespace Metrics

open Budget (Closed)

variable {m : Metrics} {label : String} {b b' : Budget} {signal : Signal} {signals : List Signal}

/-- The gauges under a label show what is left in the pools and how many nodes hold bytes, each capped
at the largest value of a gauge. -/
structure Shows (m : Metrics) (label : String) (b : Budget) : Prop where
  validatorBytes_eq :
    m.validatorBytes.get? label = some (min b.remaining.validator.toNat gaugeLimit)
  atLargeBytes_eq : m.atLargeBytes.get? label = some (min b.remaining.atLarge.toNat gaugeLimit)
  activeNodes_eq : m.activeNodes.get? label = some (min b.holders.ncard gaugeLimit)

theorem observeAll_append (m : Metrics) (signals more : List Signal) :
    m.observeAll (signals ++ more) = (m.observeAll signals).observeAll more :=
  List.foldl_append

theorem get?_setGauge (gauge : Table String Nat) (scope : String) (value : Nat) (label : String) :
    (setGauge gauge scope value).get? label =
      if label = scope then some (min value gaugeLimit) else gauge.get? label :=
  Table.get?_insert ..

/-- Reporting the pools makes the gauges show them. -/
theorem shows_pools {t : Throttler} (h : Closed t.budget) (m : Metrics) :
    (m.observe t.pools).Shows t.label t.budget where
  validatorBytes_eq := (get?_setGauge ..).trans (if_pos rfl)
  atLargeBytes_eq := (get?_setGauge ..).trans (if_pos rfl)
  activeNodes_eq := by
    rw [← h.activeNodes_eq]
    exact (get?_setGauge ..).trans (if_pos rfl)

theorem Shows.observe (h : m.Shows label b) (hother : signal.gauged? ≠ some label) :
    (m.observe signal).Shows label b := by
  cases signal with
  | pools scope validator atLarge active =>
    have hne : label ≠ scope := fun heq => hother (congrArg some heq.symm)
    have hkept (gauge : Table String Nat) (value : Nat) :
        (setGauge gauge scope value).get? label = gauge.get? label :=
      (get?_setGauge ..).trans (if_neg hne)
    exact ⟨(hkept ..).trans h.1, (hkept ..).trans h.2, (hkept ..).trans h.3⟩
  | refused | verified | rejected => exact ⟨h.1, h.2, h.3⟩

/-- Reports under other labels leave what the gauges show. -/
theorem Shows.observeAll (h : m.Shows label b)
    (hother : ∀ signal ∈ signals, signal.gauged? ≠ some label) :
    (m.observeAll signals).Shows label b := by
  induction signals generalizing m with
  | nil => exact h
  | cons signal rest ih =>
    exact ih (h.observe (hother signal List.mem_cons_self))
      fun later hlater => hother later (List.mem_cons_of_mem _ hlater)

/-- The gauges say nothing of who was refused, nor of the sizes of the pools. -/
theorem Shows.congr (h : m.Shows label b) (hremaining : b'.remaining = b.remaining)
    (husage : b'.usage = b.usage) : m.Shows label b' := by
  have hholders : b'.holders = b.holders := by
    simp only [Budget.holders, Budget.held, husage]
  exact ⟨hremaining ▸ h.1, hremaining ▸ h.2, hholders ▸ h.3⟩

end Metrics

/-! ## When a throttler publishes -/

namespace Throttler

open Budget (Closed)

variable {t : Throttler} {node : NodeId} {size : UInt64}

/-- Nothing has been moved, and no gauge is set. -/
structure Quiet (t t' : Throttler) (signals : List Signal) : Prop where
  remaining_eq : t'.budget.remaining = t.budget.remaining
  usage_eq : t'.budget.usage = t.budget.usage
  silent : ∀ signal ∈ signals, signal.gauged? = none

theorem Quiet.refl (t : Throttler) : Quiet t t [] := ⟨rfl, rfl, nofun⟩

theorem quiet_refuse {budget : Budget} {e : ThrottleError}
    (hremaining : budget.remaining = t.budget.remaining) (husage : budget.usage = t.budget.usage) :
    Quiet t (t.refuse budget e).throttler (t.refuse budget e).signals where
  remaining_eq := hremaining
  usage_eq := husage
  silent signal hsignal := by
    rw [List.mem_singleton.mp hsignal]
    rfl

/-- A request publishes where bytes are granted, and is quiet where it is refused or for none. -/
theorem publishes_acquireUnlessCancelled (t : Throttler) (set : ValidatorSet)
    (cancellation : Cancellation) (node : NodeId) (size : UInt64) :
    let reply := t.acquireUnlessCancelled set cancellation node size
    ((size ≠ 0 ∧ reply.result.isOk) ∧ reply.signals = [reply.throttler.pools]) ∨
      (¬(size ≠ 0 ∧ reply.result.isOk) ∧ Quiet t reply.throttler reply.signals) := by
  rw [acquireUnlessCancelled]
  split
  · exact .inr ⟨fun h => Bool.false_ne_true h.2, .refl t⟩
  · split
    · next hzero => exact .inr ⟨fun h => h.1 hzero, .refl t⟩
    · next hsize =>
      split
      · exact .inr ⟨fun h => Bool.false_ne_true h.2, quiet_refuse rfl rfl⟩
      · split
        · exact .inl ⟨⟨hsize, rfl⟩, rfl⟩
        · refine .inr ⟨fun h => Bool.false_ne_true h.2, quiet_refuse ?_ ?_⟩ <;>
            rw [Budget.markRefused] <;> split <;> rfl

/-- A return publishes unless it is of more than the node holds, and is quiet then. -/
theorem publishes_release (h : Closed t.budget) (node : NodeId) (size : UInt64) :
    let reply := t.release node size
    (size.toNat ≤ (t.budget.held node).count ∧ reply.signals = [reply.throttler.pools]) ∨
      (¬size.toNat ≤ (t.budget.held node).count ∧ Quiet t reply.throttler reply.signals) := by
  rw [release]
  rcases Nat.lt_or_ge (t.budget.held node).count size.toNat with hlt | hle
  · rw [h.release_of_lt hlt]
    exact .inr ⟨Nat.not_le.mpr hlt, .refl t⟩
  · obtain ⟨returned, b', heq, -⟩ := h.release hle
    rw [heq]
    exact .inl ⟨hle, rfl⟩

theorem label_acquireUnlessCancelled (t : Throttler) (set : ValidatorSet)
    (cancellation : Cancellation) (node : NodeId) (size : UInt64) :
    (t.acquireUnlessCancelled set cancellation node size).throttler.label = t.label := by
  rw [acquireUnlessCancelled]
  repeat' split
  all_goals rfl

theorem label_release (t : Throttler) (node : NodeId) (size : UInt64) :
    (t.release node size).throttler.label = t.label := by
  rw [release]
  split <;> rfl

end Throttler

namespace Scope

open Budget (Closed)

variable {s : Scope} {call : ScopeCall} {node : NodeId} {size : UInt64}

/-- Calls that grant bytes or take some back. To be granted none is not among them, to give back none
is. -/
inductive Settles (s : Scope) (call : ScopeCall) : Prop
  | grants {node : NodeId} {size : UInt64} (hasked : call.asked? = some (node, size))
    (hsize : size ≠ 0) (hgrants : (s.call call).answer.grants)
  | takesBack {node : NodeId} {size : UInt64} (hreturned : call.returned? = some (node, size))
    (hsize : size.toNat ≤ (s.throttler.budget.held node).count)

theorem signals_of_node?_none (hnode : call.node? = none) : (s.call call).signals = [] := by
  cases call with
  | change request =>
    rw [Scope.call]
    split <;> rfl
  | register => rfl
  | acquire | tryAcquire | acquireUnlessCancelled | acquirePermit | release | dropPermit =>
    cases hnode

theorem returned?_of_asked (hasked : call.asked? = some (node, size)) : call.returned? = none := by
  cases call with
  | acquire | tryAcquire | acquireUnlessCancelled | acquirePermit => rfl
  | change | register | dropPermit | release => cases hasked

/-- A request publishes if it is for some bytes and granted. -/
theorem settles_iff_of_asked (hasked : call.asked? = some (node, size)) :
    s.Settles call ↔ size ≠ 0 ∧ (s.call call).answer.grants := by
  constructor
  · rintro (⟨hasked', hsize, hgrants⟩ | ⟨hreturned, -⟩)
    · cases hasked.symm.trans hasked'
      exact ⟨hsize, hgrants⟩
    · cases (returned?_of_asked hasked).symm.trans hreturned
  · rintro ⟨hsize, hgrants⟩
    exact .grants hasked hsize hgrants

/-- A return publishes if the node holds as much. -/
theorem settles_iff_of_returned (hreturned : call.returned? = some (node, size)) :
    s.Settles call ↔ size.toNat ≤ (s.throttler.budget.held node).count := by
  constructor
  · rintro (⟨hasked, -, -⟩ | ⟨hreturned', hsize⟩)
    · cases (returned?_of_asked hasked).symm.trans hreturned
    · cases hreturned.symm.trans hreturned'
      exact hsize
  · exact .takesBack hreturned

theorem not_settles_of_node?_none (hnode : call.node? = none) : ¬s.Settles call := by
  rw [ScopeCall.node?, Option.map_eq_none_iff, Option.or_eq_none_iff] at hnode
  rintro (⟨hasked, -, -⟩ | ⟨hreturned, -⟩)
  · cases hnode.1.symm.trans hasked
  · cases hnode.2.symm.trans hreturned

/-- A call that settles bytes publishes the pools as they are after it; any other is quiet. -/
theorem publishes_or_quiet (h : Closed s.throttler.budget) (call : ScopeCall) :
    (s.Settles call ∧ (s.call call).signals = [(s.call call).scope.throttler.pools]) ∨
      (¬s.Settles call ∧ s.throttler.Quiet (s.call call).scope.throttler (s.call call).signals) := by
  rcases call.kinds with ⟨node, size, hasked⟩ | ⟨node, size, hreturned⟩ | hnode
  · obtain ⟨cancellation, hanswer, hthrottler, hsignals⟩ := call_eq_of_asked (s := s) hasked
    rw [settles_iff_of_asked hasked, hanswer, grants_answer hasked, hthrottler, hsignals]
    exact s.throttler.publishes_acquireUnlessCancelled s.roster.set cancellation node size
  · obtain ⟨-, hthrottler, hsignals⟩ := call_eq_of_returned (s := s) hreturned
    rw [settles_iff_of_returned hreturned, hthrottler, hsignals]
    exact s.throttler.publishes_release h node size
  · rw [call_of_node?_none hnode, signals_of_node?_none hnode]
    exact .inr ⟨not_settles_of_node?_none hnode, .refl _⟩

theorem label_call (s : Scope) (call : ScopeCall) :
    (s.call call).scope.throttler.label = s.throttler.label := by
  rcases call.kinds with ⟨node, size, hasked⟩ | ⟨node, size, hreturned⟩ | hnode
  · obtain ⟨cancellation, -, hthrottler, -⟩ := call_eq_of_asked (s := s) hasked
    rw [hthrottler, Throttler.label_acquireUnlessCancelled]
  · obtain ⟨-, hthrottler, -⟩ := call_eq_of_returned (s := s) hreturned
    rw [hthrottler, Throttler.label_release]
  · rw [call_of_node?_none hnode]

/-- A new scope publishes its full pools, under the default label and then under its own. -/
theorem of_make {config : ThrottleConfig} {label : String} {signals : List Signal}
    (hmake : make config label = .ok (s, signals)) :
    s.throttler.label = label ∧ Closed s.throttler.budget ∧
      signals = [{ s.throttler with label := Throttler.defaultLabel }.pools, s.throttler.pools] := by
  obtain ⟨⟨t, created⟩, hthrottler, hmade⟩ := Outcome.map_eq_ok_iff.mp hmake
  cases hmade
  obtain ⟨-, hclosed⟩ := Throttler.budget_of_make hthrottler
  obtain ⟨-, -, hcreated⟩ := Outcome.map_eq_ok_iff.mp hthrottler
  cases hcreated
  exact ⟨rfl, hclosed, rfl⟩

end Scope

/-! ## When a registry publishes -/

namespace Registry

open Budget (Closed)

variable {r : Registry} {m : Metrics} {subnet : SubnetId} {handle : Nat} {config : ThrottleConfig}
  {calls before : List RegistryCall} {call last : RegistryCall}

/-- The handle of the scope that a call opens or is made on. -/
def target? (r : Registry) : RegistryCall → Option Nat
  | .activate _ => some r.opened.length
  | .onScope used _ => some used
  | .deactivate _ | .registerChain .. | .advance _ => none

theorem step_of_target?_none (h : r.target? call = none) :
    (r.step call).1.opened = r.opened ∧ (r.step call).2 = [] := by
  cases call with
  | activate | onScope => cases h
  | deactivate closed =>
    rw [Registry.step, Registry.deactivate]
    cases r.active.get? closed <;> exact ⟨rfl, rfl⟩
  | registerChain => exact ⟨rfl, rfl⟩
  | advance height =>
    rw [Registry.step, Registry.advance]
    split <;> exact ⟨rfl, rfl⟩

/-- Every scope ever opened, detached ones included, has closed accounts and the label of its
subnet. -/
def Labelled (r : Registry) : Prop :=
  ∀ (handle : Nat) (opened : OpenedScope), r.opened[handle]? = some opened →
    opened.scope.throttler.label = opened.subnet.text ∧ Closed opened.scope.throttler.budget

/-- Every scope has the label of its subnet, whatever is called. -/
theorem Labelled.step (h : r.Labelled) (call : RegistryCall) : (r.step call).1.Labelled := by
  cases call with
  | activate subnet =>
    obtain ⟨e, -, hstep⟩ | ⟨scope, signals, -, -, hmake, hstep⟩ := r.step_activate_cases subnet <;>
      rw [hstep]
    · exact h
    · intro handle opened hopened
      obtain ⟨hlabel, hclosed, -⟩ := Scope.of_make hmake
      rw [install, List.getElem?_append] at hopened
      split at hopened
      · exact h handle opened hopened
      · obtain rfl := List.mem_singleton.mp (List.mem_of_getElem? hopened)
        exact ⟨hlabel, hclosed⟩
  | deactivate | registerChain | advance =>
    rw [Labelled, (step_of_target?_none rfl).1]
    exact h
  | onScope used call =>
    rw [step_onScope]
    intro handle opened hopened
    rw [List.getElem?_modify] at hopened
    obtain ⟨opened', hopened', heq⟩ := Option.map_eq_some_iff.mp hopened
    obtain ⟨hlabel, hclosed⟩ := h handle opened' hopened'
    split at heq <;> subst heq
    · exact ⟨(Scope.label_call ..).trans hlabel, (Scope.call_sound hclosed call).1⟩
    · exact ⟨hlabel, hclosed⟩

theorem Labelled.after (h : r.Labelled) (calls : List RegistryCall) : (r.after calls).Labelled := by
  induction calls generalizing r with
  | nil => exact h
  | cons call rest ih => exact ih (h.step call)

theorem labelled_make (config : ThrottleConfig) : (make config).Labelled := nofun

/-- Calls that set the gauges of a subnet: they activate it, or settle bytes on a scope of it, be it
the active or a detached one. -/
inductive Publishes (subnet : SubnetId) (r : Registry) : RegistryCall → Prop
  | opens (hok : (r.activate subnet).isOk) : Publishes subnet r (.activate subnet)
  | settles {used : Nat} {scope : Scope} {call : ScopeCall}
    (hopened : r.opened[used]? = some ⟨subnet, scope⟩) (hsettles : scope.Settles call) :
    Publishes subnet r (.onScope used call)

/-- The gauges of a subnet show a scope of it. -/
def Exports (r : Registry) (m : Metrics) (subnet : SubnetId) (handle : Nat) : Prop :=
  ∃ scope, r.opened[handle]? = some ⟨subnet, scope⟩ ∧ m.Shows subnet.text scope.throttler.budget

/-- A call through a handle is carried out on its scope, and reports what it reports there. -/
theorem step_onScope_of_opened {opened : OpenedScope} (hopened : r.opened[handle]? = some opened)
    (call : ScopeCall) :
    (r.step (.onScope handle call)).1.opened[handle]? =
        some { opened with scope := (opened.scope.call call).scope } ∧
      (r.step (.onScope handle call)).2 = (opened.scope.call call).signals := by
  constructor
  · rw [step_onScope]
    simp [hopened]
  · simp only [step, onScope, hopened]

theorem getElem?_step_onScope_of_ne {used : Nat} (hne : used ≠ handle) (call : ScopeCall) :
    (r.step (.onScope used call)).1.opened[handle]? = r.opened[handle]? := by
  rw [step_onScope]
  simp [hne]

/-- Once a call has published for a subnet, the gauges show the scope that it opened or was made on. -/
theorem exports_of_publishes (h : r.Labelled) (m : Metrics) (hpublishes : Publishes subnet r call)
    (htarget : r.target? call = some handle) :
    Exports (r.step call).1 (m.observeAll (r.step call).2) subnet handle := by
  cases hpublishes with
  | opens hok =>
    cases htarget
    cases hactivate : r.activate subnet with
    | error e =>
      rw [hactivate] at hok
      cases hok
    | ok opened =>
      obtain ⟨used, r', signals⟩ := opened
      obtain ⟨-, scope, hmake, rfl⟩ := activate_eq_ok hactivate
      obtain ⟨hlabel, hclosed, rfl⟩ := Scope.of_make hmake
      rw [step, hactivate]
      exact ⟨scope, List.getElem?_concat_length, hlabel ▸ Metrics.shows_pools hclosed _⟩
  | @settles used scope call hopened hsettles =>
    cases htarget
    obtain ⟨hafter, hsignals⟩ := step_onScope_of_opened hopened call
    obtain ⟨hlabel, hclosed⟩ := h handle _ hopened
    refine ⟨(scope.call call).scope, hafter, ?_⟩
    rcases Scope.publishes_or_quiet hclosed call with ⟨-, hpools⟩ | ⟨hquiet, -⟩
    · rw [hsignals, hpools]
      have hshows := Metrics.shows_pools (Scope.call_sound hclosed call).1 m
      rwa [Scope.label_call, hlabel] at hshows
    · exact absurd hsettles hquiet

/-- Where a call does not publish for a subnet, what its gauges show they go on showing. -/
theorem Exports.step (hexports : r.Exports m subnet handle) (h : r.Labelled)
    (hnot : ¬Publishes subnet r call) :
    Exports (r.step call).1 (m.observeAll (r.step call).2) subnet handle := by
  obtain ⟨scope, hopened, hshows⟩ := hexports
  cases call with
  | activate other =>
    cases hactivate : r.activate other with
    | error e =>
      rw [step_activate_of_error hactivate]
      exact ⟨scope, hopened, hshows⟩
    | ok result =>
      obtain ⟨used, r', signals⟩ := result
      obtain ⟨-, made, hmake, rfl⟩ := activate_eq_ok hactivate
      obtain ⟨hlabel, -, rfl⟩ := Scope.of_make hmake
      have hother : subnet ≠ other := by
        rintro rfl
        exact hnot (.opens (by rw [hactivate]; rfl))
      rw [step, hactivate]
      have hlt : handle < r.opened.length := (List.getElem?_eq_some_iff.mp hopened).1
      refine ⟨scope, (List.getElem?_append_left hlt).trans hopened, hshows.observeAll ?_⟩
      -- the labels of a new scope are the default and that of another subnet
      intro signal hsignal hlabelled
      rcases List.mem_pair.mp hsignal with rfl | rfl
      · exact subnet.text_ne_defaultLabel (Option.some.inj hlabelled).symm
      · refine hother (Identifier.text_injective ?_)
        rw [← hlabel]
        exact (Option.some.inj hlabelled).symm
  | deactivate | registerChain | advance =>
    rw [Exports, (step_of_target?_none rfl).1, (step_of_target?_none rfl).2]
    exact ⟨scope, hopened, hshows⟩
  | onScope used call =>
    cases hused : r.opened[used]? with
    | none =>
      simp only [Registry.step, Registry.onScope, hused]
      exact ⟨scope, hopened, hshows⟩
    | some opened =>
      obtain ⟨hafter, hsignals⟩ := step_onScope_of_opened hused call
      obtain ⟨hlabel, hclosed⟩ := h used _ hused
      rw [hsignals]
      rcases Scope.publishes_or_quiet hclosed call with ⟨hsettles, hpools⟩ | ⟨-, hquiet⟩
      · -- it published, but for another subnet
        have hother : opened.subnet ≠ subnet := by
          rintro rfl
          exact hnot (.settles hused hsettles)
        have hne : used ≠ handle := by
          rintro rfl
          cases hused.symm.trans hopened
          exact hother rfl
        have hlabelled :
            (opened.scope.call call).scope.throttler.pools.gauged? ≠ some subnet.text := by
          rw [Throttler.pools, Signal.gauged?, Scope.label_call, hlabel]
          exact fun heq => hother (Identifier.text_injective (Option.some.inj heq))
        rw [hpools]
        exact ⟨scope, (getElem?_step_onScope_of_ne hne call).trans hopened,
          hshows.observe hlabelled⟩
      · have hsilent : ∀ signal ∈ (opened.scope.call call).signals,
            signal.gauged? ≠ some subnet.text := by
          intro signal hsignal hlabelled
          rw [hquiet.silent signal hsignal] at hlabelled
          cases hlabelled
        by_cases hsame : used = handle
        · subst hsame
          cases hused.symm.trans hopened
          exact ⟨_, hafter, (hshows.congr hquiet.remaining_eq hquiet.usage_eq).observeAll hsilent⟩
        · exact ⟨scope, (getElem?_step_onScope_of_ne hsame call).trans hopened,
            hshows.observeAll hsilent⟩

/-! ## Runs -/

theorem signals_run_concat (r : Registry) (calls : List RegistryCall) (last : RegistryCall) :
    (r.run (calls ++ [last])).2 = (r.run calls).2 ++ ((r.after calls).step last).2 := by
  rw [← run_eq_after, run, List.foldl_append]
  rfl

/-- The metrics after calls on a new registry. -/
def metricsAfter (config : ThrottleConfig) (calls : List RegistryCall) : Metrics :=
  Metrics.empty.observeAll ((make config).run calls).2

theorem metricsAfter_concat (config : ThrottleConfig) (calls : List RegistryCall)
    (last : RegistryCall) :
    metricsAfter config (calls ++ [last]) =
      (metricsAfter config calls).observeAll (((make config).after calls).step last).2 := by
  rw [metricsAfter, signals_run_concat, Metrics.observeAll_append]
  rfl

/-- The gauges of a subnet show the scope that was last to publish, as it is now. -/
theorem exports_of_latest (hlatest : (make config).Latest (Publishes subnet) calls before last)
    (htarget : ((make config).after before).target? last = some handle) :
    ((make config).after calls).Exports (metricsAfter config calls) subnet handle := by
  induction calls using List.reverseRecOn with
  | nil => exact absurd hlatest not_latest_nil
  | append_singleton calls next ih =>
    have hlabelled := (labelled_make config).after calls
    rw [after_concat, metricsAfter_concat]
    by_cases hpublishes : Publishes subnet ((make config).after calls) next
    · obtain ⟨rfl, rfl⟩ := (latest_concat_of_kind hpublishes).mp hlatest
      exact exports_of_publishes hlabelled _ hpublishes htarget
    · exact (ih ((latest_concat_of_not_kind hpublishes).mp hlatest)).step hlabelled hpublishes

/-- The active handle of a subnet stays what it is at calls that do not activate the subnet. -/
theorem handle?_of_step (hactive : (r.step call).1.handle? subnet = some handle)
    (hopens : ¬Opens subnet r call) : r.handle? subnet = some handle := by
  cases call with
  | activate opened =>
    obtain ⟨e, -, hstep⟩ | ⟨scope, signals, hok, -, -, hstep⟩ := r.step_activate_cases opened <;>
      rw [hstep] at hactive
    · exact hactive
    · have hother : subnet ≠ opened := by
        rintro rfl
        exact hopens ⟨rfl, hok⟩
      rwa [handle?, get?_active_install, if_neg hother] at hactive
  | deactivate closed =>
    simp only [Registry.step, Registry.deactivate] at hactive
    cases hclosed : r.active.get? closed with
    | none => rwa [hclosed] at hactive
    | some closedHandle =>
      simp only [hclosed, handle?, Table.get?_erase] at hactive
      split at hactive
      · cases hactive
      · exact hactive
  | registerChain => exact hactive
  | advance height =>
    simp only [Registry.step, Registry.advance] at hactive
    split at hactive <;> exact hactive
  | onScope => rwa [step_onScope] at hactive

/-- Since a subnet was activated its active scope was last to publish for it, or a detached one was. -/
theorem exists_latest_of_active
    (hactive : ((make config).after calls).handle? subnet = some handle) :
    ∃ before last, (make config).Latest (Publishes subnet) calls before last ∧
      (((make config).after before).target? last = some handle ∨
        ∃ used call, last = .onScope used call ∧
          ((make config).after before).handle? subnet ≠ some used) := by
  induction calls using List.reverseRecOn with
  | nil => cases hactive
  | append_singleton calls next ih =>
    rw [after_concat] at hactive
    by_cases hpublishes : Publishes subnet ((make config).after calls) next
    · refine ⟨calls, next, (latest_concat_of_kind hpublishes).mpr ⟨rfl, rfl⟩, ?_⟩
      cases hpublishes with
      | opens hok =>
        obtain ⟨e, herror, -⟩ | ⟨scope, signals, -, -, -, hstep⟩ :=
          ((make config).after calls).step_activate_cases subnet
        · rw [herror] at hok
          cases hok
        · rw [hstep, handle?, get?_active_install, if_pos rfl] at hactive
          exact .inl hactive
      | @settles used scope call hopened hsettles =>
        have hopens : ¬Opens subnet ((make config).after calls) (.onScope used call) := by
          rintro ⟨hcall, -⟩
          cases hcall
        have hbefore := handle?_of_step hactive hopens
        by_cases hsame : handle = used
        · exact .inl (congrArg some hsame.symm)
        · refine .inr ⟨used, call, rfl, ?_⟩
          rw [hbefore]
          exact fun heq => hsame (Option.some.inj heq)
    · simp only [latest_concat_of_not_kind hpublishes]
      refine ih (handle?_of_step hactive ?_)
      rintro ⟨rfl, hok⟩
      exact hpublishes (.opens hok)

/-- **The gauges follow the scope that was last to publish.** After any calls on a registry and on its
scopes, detached ones included, the gauges of an active subnet show what is left in the pools of its
active scope and how many nodes hold bytes there, unless a detached scope of the subnet was last to grant
bytes or to take some back. Then they show that detached scope. -/
theorem gauges_of_active (hactive : ((make config).run calls).1.handle? subnet = some handle) :
    let r := ((make config).run calls).1
    let m := Metrics.empty.observeAll ((make config).run calls).2
    ((∀ before used call, (make config).Latest (Publishes subnet) calls before (.onScope used call) →
        ((make config).run before).1.handle? subnet = some used) →
      r.Exports m subnet handle) ∧
    ∀ before used call, (make config).Latest (Publishes subnet) calls before (.onScope used call) →
      r.Exports m subnet used := by
  intro r m
  have hexports {before last used} (hlatest : (make config).Latest (Publishes subnet) calls before last)
      (htarget : ((make config).after before).target? last = some used) : r.Exports m subnet used := by
    rw [show r = (make config).after calls from run_eq_after ..]
    exact exports_of_latest hlatest htarget
  rw [run_eq_after] at hactive
  constructor
  · intro hown
    obtain ⟨before, last, hlatest, htarget | ⟨used, call, rfl, hdetached⟩⟩ :=
      exists_latest_of_active hactive
    · exact hexports hlatest htarget
    · rw [← run_eq_after] at hdetached
      exact absurd (hown before used call hlatest) hdetached
  · exact fun before used call hlatest => hexports hlatest rfl

/-- Bytes taken of a scope are given back once it is detached, while its successor is in use. -/
def lateReturnCalls : List RegistryCall :=
  [.activate primaryNetwork, .onScope 0 (.acquire .zero 1), .deactivate primaryNetwork,
    .activate primaryNetwork, .onScope 1 (.acquire .zero 1), .onScope 0 (.release .zero 1)]

/-- The next grant of the active scope sets its gauges right. -/
theorem gauges_of_active_after_next_grant :
    let calls := lateReturnCalls ++ [.onScope 1 (.acquire .zero 1)]
    let r := ((make ⟨8, 4, 2⟩).run calls).1
    let m := Metrics.empty.observeAll ((make ⟨8, 4, 2⟩).run calls).2
    r.handle? primaryNetwork = some 1 ∧ r.Exports m primaryNetwork 1 ∧
      m.atLargeBytes.get? primaryNetwork.text = some 2 := by
  intro calls r m
  have hactive : r.handle? primaryNetwork = some 1 := by decide +kernel
  obtain ⟨scope, hopened⟩ : ∃ scope,
      ((make ⟨8, 4, 2⟩).after lateReturnCalls).opened[1]? = some ⟨primaryNetwork, scope⟩ :=
    (housed_make ⟨8, 4, 2⟩).after lateReturnCalls _ _ (by decide +kernel)
  have hgrants : (((make ⟨8, 4, 2⟩).after lateReturnCalls).onScope 1 (.acquire .zero 1)).map
      (·.1.answer.grants) = some true := by
    decide +kernel
  simp only [onScope, hopened, Option.map_some, Option.some.injEq] at hgrants
  have hpublishes : Publishes primaryNetwork ((make ⟨8, 4, 2⟩).after lateReturnCalls)
      (.onScope 1 (.acquire .zero 1)) :=
    .settles hopened (.grants rfl (by decide) hgrants)
  obtain ⟨hshown, -⟩ := gauges_of_active hactive
  refine ⟨hactive, hshown fun before used call hlatest => ?_, by decide +kernel⟩
  obtain ⟨rfl, hlast⟩ := (latest_concat_of_kind hpublishes).mp hlatest
  cases hlast
  decide +kernel

/-- The gauges do not follow the active scope: a return to a detached one has them show four bytes where
three are left. -/
theorem not_exports_of_late_return :
    let r := ((make ⟨8, 4, 2⟩).run lateReturnCalls).1
    let m := Metrics.empty.observeAll ((make ⟨8, 4, 2⟩).run lateReturnCalls).2
    r.handle? primaryNetwork = some 1 ∧ m.atLargeBytes.get? primaryNetwork.text = some 4 ∧
      (r.scope? 1).map (·.throttler.budget.remaining.atLarge) = some 3 ∧
      ¬r.Exports m primaryNetwork 1 := by
  intro r m
  have hgauge : m.atLargeBytes.get? primaryNetwork.text = some 4 := by decide +kernel
  have hleft : (r.scope? 1).map (·.throttler.budget.remaining.atLarge) = some 3 := by
    decide +kernel
  refine ⟨by decide +kernel, hgauge, hleft, ?_⟩
  rintro ⟨scope, hopened, hshows⟩
  rw [scope?, hopened] at hleft
  have hthree : scope.throttler.budget.remaining.atLarge = 3 := Option.some.inj hleft
  have hshown := hshows.atLargeBytes_eq
  rw [hgauge, hthree] at hshown
  exact absurd hshown (by decide)

end Registry

end StakeGuard
