import StakeGuard.Proofs.Bookkeeping

/-!
# Scopes are isolated

Whoever holds the handle of a scope can use it for as long as they like, also when the scope has been
detached. What such calls do to other scopes never shows at the active scope of a subnet: two registries
that are alike for the subnet stay so, whatever is called through foreign handles on either
(`Registry.Alike`). Main statement: runs with the same calls but for those through foreign handles give
the same replies and leave the same scope and the same history of the subnet
(`Registry.isolated_of_own_eq`).
-/

namespace StakeGuard

namespace Registry

variable {r r' r'' : Registry} {subnet : SubnetId} {handle : Nat}

/-! ## Foreign handles -/

/-- Whether a handle is that of another subnet's scope, or of one that has been detached. -/
def isForeign (r : Registry) (subnet : SubnetId) (handle : Nat) : Bool :=
  match r.opened[handle]? with
  | none => true
  | some opened => opened.subnet ≠ subnet ∨ r.handle? opened.subnet ≠ some handle

/-- A handle is foreign to a subnet unless it is that of its active scope. -/
theorem isForeign_iff (h : r.Housed) : r.isForeign subnet handle ↔ r.handle? subnet ≠ some handle := by
  rw [isForeign]
  cases hopened : r.opened[handle]? with
  | none =>
    refine iff_of_true rfl fun hactive => ?_
    obtain ⟨scope, hscope⟩ := h subnet handle hactive
    rw [hopened] at hscope
    cases hscope
  | some opened =>
    rw [decide_eq_true_eq]
    constructor
    · rintro hforeign hactive
      obtain ⟨scope, hscope⟩ := h subnet handle hactive
      rw [hopened] at hscope
      cases hscope
      exact hforeign.elim (· rfl) (· hactive)
    · intro hactive
      by_cases heq : opened.subnet = subnet
      · exact .inr (heq ▸ hactive)
      · exact .inl heq

/-- Whether a call may concern the active scope of a subnet: it is none on a foreign handle. -/
def concerns (r : Registry) (subnet : SubnetId) : RegistryCall → Bool
  | .onScope handle _ => !r.isForeign subnet handle
  | .activate _ | .deactivate _ | .registerChain .. | .advance _ => true

/-- A run without the calls through handles that are foreign to a subnet where they are made. -/
def own (subnet : SubnetId) (r : Registry) : List RegistryCall → List RegistryCall
  | [] => []
  | call :: rest =>
    let later := own subnet (r.step call).1 rest
    if r.concerns subnet call then call :: later else later

/-! ## What is seen of a subnet -/

/-- The active scope of a subnet. -/
def activeScope? (r : Registry) (subnet : SubnetId) : Option Scope :=
  (r.handle? subnet).bind r.scope?

/-- What can be seen of a subnet when a call is made: its active scope, from which everything that can
be asked of a scope is read, its validators at every height, and the reply of a scope to the call. -/
structure Observation where
  scope : Option Scope
  validatorsAt : UInt64 → Except OracleError Snapshot
  reply : Option Scope.Reply

/-- What a call on a registry shows of a subnet: its active scope, its history, and the reply if the
call is on a scope. -/
def observe (r : Registry) (subnet : SubnetId) (call : RegistryCall) : Observation where
  scope := r.activeScope? subnet
  validatorsAt height := r.oracle.validatorsAt height subnet
  reply :=
    match call with
    | .onScope handle call => (r.onScope handle call).map (·.1)
    | .activate _ | .deactivate _ | .registerChain .. | .advance _ => none

/-- What is seen of a subnet at each call of a run that may concern its active scope. -/
def observations (subnet : SubnetId) (r : Registry) : List RegistryCall → List Observation
  | [] => []
  | call :: rest =>
    let later := observations subnet (r.step call).1 rest
    if r.concerns subnet call then r.observe subnet call :: later else later

/-! ## Registries that are alike for a subnet -/

/-- Two registries have the same active scopes, by their handles, and the same of a subnet: its active
scope with all that is in it, and its history. -/
structure Alike (subnet : SubnetId) (r r' : Registry) : Prop where
  config_eq : r'.config = r.config
  height_eq : r'.height = r.height
  active_eq : r'.active = r.active
  length_eq : r'.opened.length = r.opened.length
  opened_eq : ∀ handle, r.handle? subnet = some handle → r'.opened[handle]? = r.opened[handle]?
  history_eq : r'.history.get? subnet = r.history.get? subnet

namespace Alike

theorem refl (subnet : SubnetId) (r : Registry) : Alike subnet r r :=
  ⟨rfl, rfl, rfl, rfl, fun _ _ => rfl, rfl⟩

theorem handle?_eq (h : Alike subnet r r') (other : SubnetId) : r'.handle? other = r.handle? other := by
  rw [handle?, handle?, h.active_eq]

theorem symm (h : Alike subnet r r') : Alike subnet r' r where
  config_eq := h.config_eq.symm
  height_eq := h.height_eq.symm
  active_eq := h.active_eq.symm
  length_eq := h.length_eq.symm
  opened_eq handle hactive := (h.opened_eq handle (h.handle?_eq subnet ▸ hactive)).symm
  history_eq := h.history_eq.symm

theorem trans (h : Alike subnet r r') (h' : Alike subnet r' r'') : Alike subnet r r'' where
  config_eq := h'.config_eq.trans h.config_eq
  height_eq := h'.height_eq.trans h.height_eq
  active_eq := h'.active_eq.trans h.active_eq
  length_eq := h'.length_eq.trans h.length_eq
  opened_eq handle hactive :=
    (h'.opened_eq handle ((h.handle?_eq subnet).trans hactive)).trans (h.opened_eq handle hactive)
  history_eq := h'.history_eq.trans h.history_eq

theorem activeScope?_eq (h : Alike subnet r r') : r'.activeScope? subnet = r.activeScope? subnet := by
  rw [activeScope?, activeScope?, h.handle?_eq]
  cases hactive : r.handle? subnet with
  | none => rfl
  | some handle => simp only [Option.bind_some, scope?, h.opened_eq handle hactive]

theorem validatorsAt_eq (h : Alike subnet r r') (height : UInt64) :
    r'.oracle.validatorsAt height subnet = r.oracle.validatorsAt height subnet := by
  simp only [oracle, History.validatorsAt, h.height_eq, h.history_eq]

/-! ### Calls through foreign handles -/

/-- What is called on another scope does not show. -/
theorem onScope_foreign {used : Nat} (hforeign : r.handle? subnet ≠ some used) (call : ScopeCall) :
    Alike subnet r (r.step (.onScope used call)).1 := by
  rw [step_onScope]
  refine ⟨rfl, rfl, rfl, List.length_modify .., fun handle hactive => ?_, rfl⟩
  have hne : used ≠ handle := by
    rintro rfl
    exact hforeign hactive
  simp [hne]

/-! ### Calls on both -/

/-- Registries that are alike for a subnet activate any subnet alike. -/
theorem activate (h : Alike subnet r r') (opened : SubnetId) :
    Alike subnet (r.step (.activate opened)).1 (r'.step (.activate opened)).1 := by
  have herror : ∀ e, r'.activate opened = .error e ↔ r.activate opened = .error e := fun e => by
    rw [activate_eq_error_iff, activate_eq_error_iff, h.handle?_eq, h.config_eq]
  obtain ⟨e, he, hstep⟩ | ⟨scope, signals, hok, -, hscope, hstep⟩ := r.step_activate_cases opened
  · rw [hstep, step_activate_of_error ((herror e).mpr he)]
    exact h
  · obtain ⟨e, he, -⟩ | ⟨scope', signals', -, -, hscope', hstep'⟩ := r'.step_activate_cases opened
    · rw [(herror e).mp he] at hok
      cases hok
    · rw [h.config_eq, hscope] at hscope'
      cases hscope'
      rw [hstep, hstep']
      refine ⟨h.config_eq, h.height_eq, ?_, ?_, fun handle hactive => ?_, ?_⟩
      · simp only [install, h.active_eq, h.length_eq]
      · simp only [install, List.length_append, h.length_eq]
      · rw [handle?, get?_active_install] at hactive
        simp only [install]
        split at hactive
        · cases hactive
          rw [List.getElem?_concat_length, ← h.length_eq, List.getElem?_concat_length]
        · rw [List.getElem?_append, List.getElem?_append, h.length_eq, h.opened_eq handle hactive]
      · rw [get?_history_install, get?_history_install, h.height_eq, h.history_eq]

theorem deactivate (h : Alike subnet r r') (closed : SubnetId) :
    Alike subnet (r.step (.deactivate closed)).1 (r'.step (.deactivate closed)).1 := by
  simp only [Registry.step, Registry.deactivate, h.active_eq]
  cases hclosed : r.active.get? closed with
  | none => exact h
  | some handle =>
    refine ⟨h.config_eq, h.height_eq, rfl, h.length_eq, fun handle hactive => ?_, ?_⟩
    · simp only [handle?, Table.get?_erase] at hactive
      split at hactive
      · cases hactive
      · exact h.opened_eq handle hactive
    · simp only [Table.get?_erase, h.history_eq]

/-- They note the same validators of the subnet in an advance. -/
theorem advance (h : Alike subnet r r') (height : UInt64) :
    Alike subnet (r.step (.advance height)).1 (r'.step (.advance height)).1 := by
  simp only [Registry.step, Registry.advance, h.height_eq]
  split
  · exact h
  · refine ⟨h.config_eq, rfl, h.active_eq, h.length_eq, h.opened_eq, ?_⟩
    simp only [h.active_eq]
    cases hactive : r.active.get? subnet with
    | none =>
      have hinactive := Table.get?_eq_none_iff.mp hactive
      rw [get?_foldl_recordSnapshot_of_not_mem height r.listOf hinactive,
        get?_foldl_recordSnapshot_of_not_mem height r'.listOf hinactive, h.history_eq]
    | some handle =>
      have hmem := Table.mem_entries_iff.mpr hactive
      have hlist : r'.listOf handle = r.listOf handle := by
        simp only [listOf, scope?, h.opened_eq handle hactive]
      rw [get?_foldl_recordSnapshot_of_mem height r.listOf r.active.nodup_keys hmem,
        get?_foldl_recordSnapshot_of_mem height r'.listOf r.active.nodup_keys hmem, h.history_eq,
        hlist]

/-- The same call keeps two registries alike. -/
theorem step (h : Alike subnet r r') (call : RegistryCall) :
    Alike subnet (r.step call).1 (r'.step call).1 := by
  cases call with
  | activate opened => exact h.activate opened
  | deactivate closed => exact h.deactivate closed
  | registerChain => exact ⟨h.config_eq, h.height_eq, h.active_eq, h.length_eq, h.opened_eq, h.history_eq⟩
  | advance height => exact h.advance height
  | onScope used call =>
    rw [step_onScope, step_onScope]
    refine ⟨h.config_eq, h.height_eq, h.active_eq, ?_, fun handle hactive => ?_, h.history_eq⟩
    · simp only [List.length_modify, h.length_eq]
    · simp only [List.getElem?_modify, h.opened_eq handle hactive]

/-- They agree on which calls concern the subnet. -/
theorem concerns_eq (h : Alike subnet r r') (hr : r.Housed) (hr' : r'.Housed) (call : RegistryCall) :
    r'.concerns subnet call = r.concerns subnet call := by
  cases call with
  | onScope handle call =>
    have hforeign : r'.isForeign subnet handle = r.isForeign subnet handle := by
      rw [Bool.eq_iff_iff, isForeign_iff hr, isForeign_iff hr', h.handle?_eq]
    rw [concerns, concerns, hforeign]
  | activate | deactivate | registerChain | advance => rfl

/-- They show the same of the subnet in every call that concerns it. -/
theorem observe_eq (h : Alike subnet r r') (hr : r.Housed) {call : RegistryCall}
    (hconcerns : r.concerns subnet call) : r'.observe subnet call = r.observe subnet call := by
  have hvalidators : (fun height => r'.oracle.validatorsAt height subnet) =
      fun height => r.oracle.validatorsAt height subnet := funext h.validatorsAt_eq
  cases call with
  | onScope handle call =>
    rw [concerns, Bool.not_eq_true', ← Bool.not_eq_true, isForeign_iff hr, ne_eq,
      Decidable.not_not] at hconcerns
    have hopened := h.opened_eq handle hconcerns
    have hreply : (r'.onScope handle call).map (·.1) = (r.onScope handle call).map (·.1) := by
      simp only [onScope, hopened]
      cases r.opened[handle]? <;> rfl
    simp only [observe, h.activeScope?_eq, hvalidators, hreply]
  | activate | deactivate | registerChain | advance =>
    simp only [observe, h.activeScope?_eq, hvalidators]

/-! ### Runs -/

/-- A run and its own part for a subnet, begun alike, end alike, and the same is seen in both. -/
theorem after_own (h : Alike subnet r r') (hr : r.Housed) (hr' : r'.Housed)
    (calls : List RegistryCall) :
    Alike subnet (r.after calls) (r'.after (r.own subnet calls)) ∧
      r.observations subnet calls = r'.observations subnet (r.own subnet calls) := by
  induction calls generalizing r r' with
  | nil => exact ⟨h, rfl⟩
  | cons call rest ih =>
    rw [own, observations]
    by_cases hconcerns : r.concerns subnet call
    · obtain ⟨halike, hseen⟩ := ih (h.step call) (hr.step call) (hr'.step call)
      have hconcerns' : r'.concerns subnet call := (h.concerns_eq hr hr' call).trans hconcerns
      rw [if_pos hconcerns, if_pos hconcerns, observations, if_pos hconcerns']
      exact ⟨halike, by rw [h.observe_eq hr hconcerns, hseen]⟩
    · rw [if_neg hconcerns, if_neg hconcerns]
      cases call with
      | onScope used call =>
        rw [concerns, Bool.not_eq_true', Bool.not_eq_false] at hconcerns
        -- the left registry moves alone, through a handle that is foreign to the subnet
        have hmoved := (onScope_foreign ((isForeign_iff hr).mp hconcerns) call).symm.trans h
        exact ih hmoved (hr.step _) hr'
      | activate | deactivate | registerChain | advance => exact absurd rfl hconcerns

end Alike

/-- **Scopes are isolated.** Two runs on new registries may differ in what is called through the handles
of other subnets' scopes and of detached ones. If they are the same otherwise, the same is seen of the
subnet at every other call, the reply to it included, and in the end: its active scope is the same under
the same handle, with its validators and its throttler, and so are its validators at every height. -/
theorem isolated_of_own_eq {config : ThrottleConfig} {calls calls' : List RegistryCall}
    (h : (make config).own subnet calls = (make config).own subnet calls') :
    let r := ((make config).run calls).1
    let r' := ((make config).run calls').1
    (make config).observations subnet calls = (make config).observations subnet calls' ∧
    r.handle? subnet = r'.handle? subnet ∧ r.activeScope? subnet = r'.activeScope? subnet ∧
    ∀ height, r.oracle.validatorsAt height subnet = r'.oracle.validatorsAt height subnet := by
  have hnew := housed_make config
  obtain ⟨halike, hseen⟩ := (Alike.refl subnet (make config)).after_own hnew hnew calls
  obtain ⟨halike', hseen'⟩ := (Alike.refl subnet (make config)).after_own hnew hnew calls'
  rw [← h] at halike' hseen'
  -- both runs are alike to the part that they share
  have hboth := halike'.trans halike.symm
  simp only [run_eq_after]
  exact ⟨hseen.trans hseen'.symm, hboth.handle?_eq subnet, hboth.activeScope?_eq,
    hboth.validatorsAt_eq⟩

/-- A subnet is activated anew and gets a validator, who takes some bytes at a later height. -/
def reopeningCalls : List RegistryCall :=
  [.activate primaryNetwork, .activate ⟨.ofNat 32 1⟩, .deactivate primaryNetwork,
    .activate primaryNetwork, .onScope 2 (.change (.add .zero none none 5)), .advance 3,
    .onScope 2 (.acquire .zero 2)]

/-- The same, while the detached scope of the subnet and the scope of another one are in use. -/
def crowdedCalls : List RegistryCall :=
  [.activate primaryNetwork, .activate ⟨.ofNat 32 1⟩, .deactivate primaryNetwork,
    .onScope 0 (.change (.add .zero none none 9)), .activate primaryNetwork,
    .onScope 1 (.change (.add .zero none none 7)), .onScope 2 (.change (.add .zero none none 5)),
    .onScope 0 (.acquire .zero 4), .advance 3, .onScope 1 (.acquire .zero 8),
    .onScope 2 (.acquire .zero 2)]

/-- A crowd of calls through foreign handles changes two other scopes, and nothing that is seen of the
subnet. -/
theorem isolated_of_crowd :
    let start := make ⟨8, 4, 2⟩
    let r := (start.run reopeningCalls).1
    let r' := (start.run crowdedCalls).1
    start.own primaryNetwork reopeningCalls = start.own primaryNetwork crowdedCalls ∧
    r.handle? primaryNetwork = some 2 ∧ r.scope? 0 ≠ r'.scope? 0 ∧ r.scope? 1 ≠ r'.scope? 1 ∧
    r.activeScope? primaryNetwork = r'.activeScope? primaryNetwork ∧
    r'.oracle.validatorsAt 3 primaryNetwork = .ok [⟨.zero, none, 5⟩] := by
  intro start r r'
  have hown : start.own primaryNetwork reopeningCalls = start.own primaryNetwork crowdedCalls := by
    decide +kernel
  have hvalidators : r.oracle.validatorsAt 3 primaryNetwork = .ok [⟨.zero, none, 5⟩] := by
    change r.history.validatorsAt r.height 3 primaryNetwork = _
    exact History.validatorsAt_eq_ok_iff.mpr (by decide +kernel)
  obtain ⟨-, -, hscope, hanswers⟩ := isolated_of_own_eq hown
  exact ⟨hown, by decide +kernel, by decide +kernel, by decide +kernel, hscope,
    (hanswers 3).symm.trans hvalidators⟩

end Registry

end StakeGuard
