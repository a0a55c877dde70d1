import StakeGuard.Proofs.Chronicle

/-!
# What holds of every list that is noted

A chronicle notes lists of validator sets, and sets change by requests only. So what holds of the empty
set and is kept by the requests that are made holds of every scope's set and of every set whose list is
noted (`Registry.SetsHave.step`, `Registry.listsHave_chronicle`).
-/

namespace StakeGuard

variable {P : ValidatorSet → Prop}

/-- What a call requests of a validator set, if it does, keeps a property of such sets. -/
def RegistryCall.Keeps (P : ValidatorSet → Prop) (call : RegistryCall) : Prop :=
  ∀ handle request, call = .onScope handle (.change request) → ∀ s, P s → P (s.step request)

theorem Scope.call_keeps {s : Scope} (h : P s.roster.set) {call : ScopeCall}
    (hkeep : ∀ request, call = .change request → P (s.roster.set.step request)) :
    P (s.call call).scope.roster.set := by
  cases call with
  | change request =>
    have hstep := hkeep request rfl
    rw [ValidatorSet.step] at hstep
    rw [Scope.call, Roster.apply]
    cases happly : s.roster.set.apply request with
    | error e => exact h
    | ok update =>
      rw [happly] at hstep
      exact hstep
  | register | acquire | tryAcquire | acquireUnlessCancelled | acquirePermit | dropPermit
  | release => exact h

namespace Registry

variable {r : Registry} {c : Chronicle}

/-- Every scope ever opened has a set with the property. -/
def SetsHave (P : ValidatorSet → Prop) (r : Registry) : Prop :=
  ∀ o ∈ r.opened, P o.scope.roster.set

/-- Every list that is noted is that of a set with the property. -/
def ListsHave (P : ValidatorSet → Prop) (c : Chronicle) : Prop :=
  ∀ subnet a, c subnet = some a → ∀ e ∈ a.advances, ∃ s : ValidatorSet, P s ∧ e.2 = s.list

variable (hempty : P .empty)
include hempty

theorem SetsHave.live (h : SetsHave P r) (subnet : SubnetId) :
    ∃ s : ValidatorSet, P s ∧ r.live subnet = s.list := by
  have hnone : ∃ s : ValidatorSet, P s ∧ [] = s.list := ⟨_, hempty, rfl⟩
  rw [Registry.live]
  split
  · exact hnone
  · next handle _ =>
    rw [listOf, scope?]
    cases hopened : r.opened[handle]? with
    | none => exact hnone
    | some o => exact ⟨_, h o (List.mem_of_getElem? hopened), rfl⟩

/-- A call keeps what its request keeps of every scope's set. -/
theorem SetsHave.step (h : SetsHave P r) {call : RegistryCall} (hkeep : call.Keeps P) :
    SetsHave P (r.step call).1 := by
  cases call with
  | activate opened =>
    obtain ⟨e, -, hstep⟩ | ⟨scope, signals, -, -, hscope, hstep⟩ := r.step_activate_cases opened <;>
      rw [hstep]
    · exact h
    · intro o ho
      rcases List.mem_append.mp ho with ho | ho
      · exact h o ho
      · obtain rfl := List.mem_singleton.mp ho
        obtain ⟨_, -, heq⟩ := Outcome.map_eq_ok_iff.mp hscope
        cases heq
        exact hempty
  | deactivate closed =>
    simp only [Registry.step, Registry.deactivate]
    split <;> exact h
  | advance height =>
    simp only [Registry.step, Registry.advance]
    split <;> exact h
  | registerChain => exact h
  | onScope handle call =>
    simp only [Registry.step, Registry.onScope]
    cases hopened : r.opened[handle]? with
    | none => exact h
    | some opened =>
      intro o ho
      rcases List.mem_or_eq_of_mem_set ho with ho | rfl
      · exact h o ho
      · have hset := h opened (List.mem_of_getElem? hopened)
        exact Scope.call_keeps hset fun request heq => hkeep handle request (by rw [heq]) _ hset

/-- What holds of the sets of all scopes holds of the lists that are noted. -/
theorem ListsHave.note (hsets : SetsHave P r) (h : ListsHave P c) (call : RegistryCall) :
    ListsHave P (r.note c call) := by
  intro subnet a ha e he
  cases call with
  | activate opened =>
    rw [Registry.note] at ha
    split at ha
    · cases ha
      cases he
    · exact h subnet a ha e he
  | deactivate closed =>
    rw [Registry.note] at ha
    split at ha
    · cases ha
    · exact h subnet a ha e he
  | advance height =>
    rw [Registry.note] at ha
    split at ha
    · exact h subnet a ha e he
    · obtain ⟨a', ha', rfl⟩ := Option.map_eq_some_iff.mp ha
      rcases List.mem_cons.mp he with rfl | he
      · exact hsets.live hempty subnet
      · exact h subnet a' ha' e he
  | registerChain | onScope => exact h subnet a ha e he

/-- So it holds of every list in the chronicle of a run. -/
theorem listsHave_chronicle (hsets : SetsHave P r) (h : ListsHave P c) {calls : List RegistryCall}
    (hkeep : ∀ call ∈ calls, call.Keeps P) : ListsHave P (r.chronicle c calls) := by
  induction calls generalizing r c with
  | nil => exact h
  | cons call rest ih =>
    rw [List.forall_mem_cons] at hkeep
    exact ih (hsets.step hempty hkeep.1) (h.note hempty hsets call) hkeep.2

/-- So what an account says of a height is the list of a set with the property. -/
theorem ListsHave.at? (h : ListsHave P c) {subnet : SubnetId} {a : Account} (ha : c subnet = some a)
    (height : UInt64) :
    ∃ s : ValidatorSet, P s ∧ (a.lastAdvance? height).getD [] = s.list := by
  cases hlast : a.lastAdvance? height with
  | none => exact ⟨_, hempty, rfl⟩
  | some snapshot =>
    obtain ⟨e, he, rfl⟩ := Option.map_eq_some_iff.mp hlast
    exact h subnet a ha e (List.mem_of_find?_eq_some he)

end Registry

end StakeGuard
