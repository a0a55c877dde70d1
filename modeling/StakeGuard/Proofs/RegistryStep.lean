import StakeGuard.Proofs.Outcome
import StakeGuard.Registry

/-!
# What one call does to a registry

An activation is refused, or admits one more scope (`Registry.step_activate_cases`), and a call on a
scope changes that scope alone (`Registry.step_onScope`). What becomes of the configuration, of the
height and of a chain is said for all calls at once.
-/

namespace StakeGuard.Registry

variable {r : Registry} {subnet : SubnetId}

/-! ## Activations -/

/-- The registry with one more scope, which is the active one of a subnet. -/
def install (r : Registry) (subnet : SubnetId) (scope : Scope) : Registry :=
  { r with
    opened := r.opened ++ [⟨subnet, scope⟩]
    active := r.active.insert subnet r.opened.length
    history := r.history.insert subnet (.single r.height []) }

theorem get?_active_install (r : Registry) (owner : SubnetId) (scope : Scope) (subnet : SubnetId) :
    (r.install owner scope).active.get? subnet =
      if subnet = owner then some r.opened.length else r.active.get? subnet :=
  Table.get?_insert ..

theorem get?_history_install (r : Registry) (owner : SubnetId) (scope : Scope) (subnet : SubnetId) :
    (r.install owner scope).history.get? subnet =
      if subnet = owner then some (.single r.height []) else r.history.get? subnet :=
  Table.get?_insert ..

/-- An activation that succeeds installs a new scope for a subnet that had none. -/
theorem activate_eq_ok {handle : Nat} {r' : Registry} {signals : List Signal}
    (h : r.activate subnet = .ok (handle, r', signals)) :
    r.active.get? subnet = none ∧
      ∃ scope, Scope.make r.config subnet.text = .ok (scope, signals) ∧ r' = r.install subnet scope := by
  rw [activate] at h
  split at h
  · cases h
  · next hactive =>
    split at h
    · cases h
    · next scope signals' hmake =>
      cases h
      exact ⟨Table.contains_eq_false_iff.mp (Bool.not_eq_true _ ▸ hactive), scope, hmake, rfl⟩

/-- An activation is refused where the subnet has an active scope, and else where no scope can be made
with the pool sizes. -/
theorem activate_eq_error_iff {e : RegistryError} :
    r.activate subnet = .error e ↔
      ((r.handle? subnet).isSome ∧ e = .scopeExists subnet) ∨
      (r.handle? subnet = none ∧ ∃ cause, r.config.validate = .error cause ∧ e = .throttler cause) := by
  have hmake : ∀ cause, Scope.make r.config subnet.text = .error cause ↔
      r.config.validate = .error cause := fun cause => by
    rw [Scope.make, Outcome.map_eq_error_iff, Throttler.make, Outcome.map_eq_error_iff]
  rw [activate, Table.contains, handle?]
  cases hactive : r.active.get? subnet with
  | some handle => simp [eq_comm]
  | none =>
    cases hscope : Scope.make r.config subnet.text with
    | error cause => simp [(hmake cause).mp hscope, eq_comm]
    | ok made =>
      have hvalid : ∀ cause, r.config.validate ≠ .error cause := fun cause hinvalid => by
        rw [(hmake cause).mpr hinvalid] at hscope
        cases hscope
      simp [hvalid]

theorem step_activate_of_error {e : RegistryError} (h : r.activate subnet = .error e) :
    r.step (.activate subnet) = (r, []) := by
  rw [step, h]

/-- An activation is refused and changes nothing, or it admits a new scope for a subnet without one. -/
theorem step_activate_cases (r : Registry) (subnet : SubnetId) :
    (∃ e, r.activate subnet = .error e ∧ (r.step (.activate subnet)).1 = r) ∨
    ∃ scope signals, (r.activate subnet).isOk ∧ r.active.get? subnet = none ∧
      Scope.make r.config subnet.text = .ok (scope, signals) ∧
      (r.step (.activate subnet)).1 = r.install subnet scope := by
  cases hactivate : r.activate subnet with
  | error e => exact .inl ⟨e, rfl, by rw [step_activate_of_error hactivate]⟩
  | ok result =>
    obtain ⟨handle, r', signals⟩ := result
    obtain ⟨hinactive, scope, hmake, rfl⟩ := activate_eq_ok hactivate
    exact .inr ⟨scope, signals, rfl, hinactive, hmake, by rw [step, hactivate]⟩

/-! ## Calls on a scope -/

/-- Writing what a function makes of the element at a place is modifying the list there. -/
theorem set_eq_modify {α : Type} {l : List α} {i : Nat} {a : α} (h : l[i]? = some a) (f : α → α) :
    l.set i (f a) = l.modify i f := by
  apply List.ext_getElem?
  intro j
  rw [List.getElem?_set, List.getElem?_modify]
  by_cases hij : i = j
  · subst hij
    obtain ⟨hlt, rfl⟩ := List.getElem?_eq_some_iff.mp h
    simp [hlt]
  · simp [hij]

/-- A call on a scope changes that scope alone. -/
theorem step_onScope (r : Registry) (handle : Nat) (call : ScopeCall) :
    (r.step (.onScope handle call)).1 =
      { r with opened := r.opened.modify handle fun o =>
          { o with scope := (o.scope.call call).scope } } := by
  cases hopened : r.opened[handle]? with
  | none =>
    simp only [step, onScope, hopened, List.modify_eq_self (List.getElem?_eq_none_iff.mp hopened)]
  | some opened => simp only [step, onScope, hopened, ← set_eq_modify hopened]

/-! ## All calls -/

theorem config_step (r : Registry) (call : RegistryCall) : (r.step call).1.config = r.config := by
  cases call with
  | activate opened =>
    obtain ⟨e, -, hstep⟩ | ⟨scope, signals, -, -, -, hstep⟩ := r.step_activate_cases opened <;>
      rw [hstep]
    rfl
  | deactivate closed =>
    simp only [step, deactivate]
    cases r.active.get? closed <;> rfl
  | registerChain => rfl
  | advance height =>
    simp only [step, advance]
    split <;> rfl
  | onScope => rw [step_onScope]

/-- The height that a call asks to advance to. -/
def advanced? : RegistryCall → Option UInt64
  | .advance height => some height
  | .activate _ | .deactivate _ | .registerChain .. | .onScope .. => none

theorem advance_height (r : Registry) (height : UInt64) :
    (r.advance height).1 = max r.height height ∧ (r.advance height).2.height = max r.height height := by
  have hmax : max r.height height = if r.height ≤ height then height else r.height := rfl
  rw [advance, hmax]
  by_cases hle : height ≤ r.height
  · by_cases hge : r.height ≤ height
    · simp [UInt64.le_antisymm hge hle]
    · simp [hle, hge]
  · have hge : r.height ≤ height := UInt64.le_of_lt (UInt64.not_le.mp hle)
    simp [hle, hge]

/-- Only an advance changes the height, and raises it. -/
theorem height_step (r : Registry) (call : RegistryCall) :
    (r.step call).1.height = (advanced? call).elim r.height (max r.height) := by
  cases call with
  | activate opened =>
    obtain ⟨e, -, hstep⟩ | ⟨scope, signals, -, -, -, hstep⟩ := r.step_activate_cases opened <;>
      rw [hstep] <;> rfl
  | deactivate closed =>
    simp only [step, deactivate]
    cases r.active.get? closed <;> rfl
  | registerChain => rfl
  | advance height => exact (r.advance_height height).2
  | onScope => rw [step_onScope]; rfl

/-- What becomes of a chain in a call: it is registered, forgotten with its subnet, or left. -/
theorem get?_chains_step (r : Registry) (call : RegistryCall) (chain : ChainId) :
    (r.step call).1.chains.get? chain =
      match call with
      | .registerChain other target => if chain = other then some target else r.chains.get? chain
      | .deactivate closed =>
        if (r.active.get? closed).isSome then (r.chains.get? chain).filter (· ≠ closed)
        else r.chains.get? chain
      | .activate _ | .advance _ | .onScope .. => r.chains.get? chain := by
  cases call with
  | activate opened =>
    obtain ⟨e, -, hstep⟩ | ⟨scope, signals, -, -, -, hstep⟩ := r.step_activate_cases opened <;>
      rw [hstep]
    rfl
  | deactivate closed =>
    simp only [step, deactivate]
    cases r.active.get? closed with
    | none => rfl
    | some handle => simp [Table.get?_retain]
  | registerChain other target => simp only [step, registerChain, Table.get?_insert]
  | advance height =>
    simp only [step, advance]
    split <;> rfl
  | onScope => rw [step_onScope]

end StakeGuard.Registry
