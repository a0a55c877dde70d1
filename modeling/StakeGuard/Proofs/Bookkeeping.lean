import Mathlib.Data.List.Induction
import StakeGuard.Proofs.Chronicle

/-!
# What a registry keeps track of

Subnets with their scopes and histories, chains with their subnets, and a height: each is kept by a
part of the registry of its own, and every call touches some of them. What a part holds is said by the
latest call that mattered to it (`Registry.Latest`). Main statement: after any calls the parts agree
with each other and with what was called (`Registry.booked_after_calls`).
-/

namespace StakeGuard

namespace Registry

variable {r : Registry} {c : Chronicle} {subnet : SubnetId} {chain : ChainId} {config : ThrottleConfig}
  {calls before : List RegistryCall} {call last : RegistryCall}

/-! ## The latest call of a kind -/

theorem after_concat (r : Registry) (calls : List RegistryCall) (last : RegistryCall) :
    r.after (calls ++ [last]) = ((r.after calls).step last).1 := by
  rw [after, List.foldl_append]
  rfl

theorem chronicle_concat (r : Registry) (c : Chronicle) (calls : List RegistryCall)
    (last : RegistryCall) :
    r.chronicle c (calls ++ [last]) = (r.after calls).note (r.chronicle c calls) last := by
  induction calls generalizing r c with
  | nil => rfl
  | cons call rest ih => exact ih (r.step call).1 (r.note c call)

/-- Where a list that ends in an element is split at one, it is split at the last or before it. -/
theorem concat_eq_append_cons_iff {α : Type} {xs before rest : List α} {x y : α} :
    xs ++ [x] = before ++ y :: rest ↔
      (rest = [] ∧ before = xs ∧ y = x) ∨ ∃ mid, rest = mid ++ [x] ∧ xs = before ++ y :: mid := by
  constructor
  · intro h
    rcases List.eq_nil_or_concat rest with rfl | ⟨mid, z, rfl⟩
    · obtain ⟨hxs, hx⟩ := List.append_inj' h rfl
      exact .inl ⟨rfl, hxs.symm, (List.singleton_inj.mp hx).symm⟩
    · rw [List.concat_eq_append, ← List.cons_append, ← List.append_assoc] at h
      obtain ⟨hxs, hx⟩ := List.append_inj' h rfl
      exact .inr ⟨mid, by rw [List.concat_eq_append, hx], hxs⟩
  · rintro (⟨rfl, rfl, rfl⟩ | ⟨mid, rfl, rfl⟩)
    · rfl
    · rw [List.append_assoc, List.cons_append]

/-- A call of a kind that no call of the kind follows, and the calls before it. Of what kind a call is
depends on the registry it is made on. -/
structure Latest (r : Registry) (kind : Registry → RegistryCall → Prop)
    (calls before : List RegistryCall) (call : RegistryCall) : Prop where
  of_kind : kind (r.after before) call
  none_later : ∃ rest, calls = before ++ call :: rest ∧
    ∀ mid later tail, rest = mid ++ later :: tail → ¬kind (r.after (before ++ call :: mid)) later

variable {kind : Registry → RegistryCall → Prop}

theorem not_latest_nil : ¬r.Latest kind [] before call := by
  rintro ⟨-, rest, hsplit, -⟩
  simp at hsplit

/-- A last call of the kind is the latest of the kind. -/
theorem latest_concat_of_kind (h : kind (r.after calls) last) :
    r.Latest kind (calls ++ [last]) before call ↔ before = calls ∧ call = last := by
  constructor
  · rintro ⟨-, rest, hsplit, hnone⟩
    rcases concat_eq_append_cons_iff.mp hsplit with ⟨-, hlast⟩ | ⟨mid, rfl, rfl⟩
    · exact hlast
    · exact absurd h (hnone mid last [] rfl)
  · rintro ⟨rfl, rfl⟩
    exact ⟨h, [], rfl, fun mid later tail hmid => by simp at hmid⟩

/-- A last call of another kind leaves the latest of the kind where it is. -/
theorem latest_concat_of_not_kind (h : ¬kind (r.after calls) last) :
    r.Latest kind (calls ++ [last]) before call ↔ r.Latest kind calls before call := by
  constructor
  · rintro ⟨hkind, rest, hsplit, hnone⟩
    rcases concat_eq_append_cons_iff.mp hsplit with ⟨-, rfl, rfl⟩ | ⟨mid, rfl, rfl⟩
    · exact absurd hkind h
    · refine ⟨hkind, mid, rfl, fun mid' later tail hmid => ?_⟩
      exact hnone mid' later (tail ++ [last]) (by rw [hmid, List.append_assoc, List.cons_append])
  · rintro ⟨hkind, rest, rfl, hnone⟩
    refine ⟨hkind, rest ++ [last], by rw [List.append_assoc, List.cons_append], ?_⟩
    intro mid later tail hsplit
    rcases concat_eq_append_cons_iff.mp hsplit with ⟨-, rfl, rfl⟩ | ⟨tail', -, hrest⟩
    · exact h
    · exact hnone mid later tail' hrest

/-! ## Chains -/

/-- Calls that decide of which subnet a chain is: they register it anew, or deactivate the active scope
of the subnet. -/
def Moves (chain : ChainId) (subnet : SubnetId) (r : Registry) (call : RegistryCall) : Prop :=
  (∃ target, call = .registerChain chain target) ∨
    (call = .deactivate subnet ∧ (r.handle? subnet).isSome)

/-- A chain is of a subnet exactly where the latest call to decide this registered it so. -/
theorem get?_chains_after_eq_some_iff :
    ((make config).after calls).chains.get? chain = some subnet ↔
      ∃ before, (make config).Latest (Moves chain subnet) calls before (.registerChain chain subnet) := by
  induction calls using List.reverseRecOn with
  | nil => simp [not_latest_nil, after, make]
  | append_singleton calls last ih =>
    rw [after_concat, get?_chains_step]
    by_cases hmoves : Moves chain subnet ((make config).after calls) last
    · simp only [latest_concat_of_kind hmoves, exists_eq_left]
      rcases hmoves with ⟨target, rfl⟩ | ⟨rfl, hactive⟩
      · simp [eq_comm]
      · rw [handle?] at hactive
        simp [hactive, Option.filter_eq_some_iff]
    · simp only [latest_concat_of_not_kind hmoves, ← ih]
      rw [Moves, not_or] at hmoves
      cases last with
      | registerChain other target =>
        have hne : chain ≠ other := by
          rintro rfl
          exact hmoves.1 ⟨target, rfl⟩
        simp only [if_neg hne]
      | deactivate closed =>
        by_cases hactive : (((make config).after calls).active.get? closed).isSome
        · have hne : subnet ≠ closed := by
            rintro rfl
            exact hmoves.2 ⟨rfl, hactive⟩
          simp [hactive, Option.filter_eq_some_iff, hne]
        · simp only [if_neg hactive]
      | activate | advance | onScope => rfl

/-! ## Heights -/

/-- The highest height that calls ask to advance to, at least zero. -/
def highest (calls : List RegistryCall) : UInt64 := (calls.filterMap advanced?).foldl max 0

/-- The height is the highest that was asked for. -/
theorem height_after (calls : List RegistryCall) :
    ((make config).after calls).height = highest calls := by
  induction calls using List.reverseRecOn with
  | nil => rfl
  | append_singleton calls last ih =>
    rw [after_concat, height_step, ih, highest, highest, List.filterMap_append, List.foldl_append]
    cases h : advanced? last <;> simp [h]

/-! ## Histories -/

namespace Tells

variable {t : Timeline Snapshot} {a : Account} {height : UInt64}

theorem since_le_of_mem (h : Tells t a height) {e : UInt64 × Snapshot} (he : e ∈ t.entries) :
    a.since ≤ e.1 := by
  refine UInt64.not_lt.mp fun hlt => ?_
  -- the entry would show at its height, where the account has no answer yet
  have hnone : t.at? e.1 = none := by rw [h.at?_eq, Account.at?, if_pos hlt]
  rw [Timeline.at?, Option.map_eq_none_iff, List.find?_eq_none] at hnone
  exact hnone e he (by simp)

theorem entries_ne_nil (h : Tells t a height) : t.entries ≠ [] := by
  intro hnil
  have hat := h.at?_eq a.since
  rw [Timeline.at?, hnil, Account.at?, if_neg (UInt64.lt_irrefl _)] at hat
  cases hat

end Tells

/-- Calls that activate a subnet. -/
def Opens (subnet : SubnetId) (r : Registry) (call : RegistryCall) : Prop :=
  call = .activate subnet ∧ (r.activate subnet).isOk

/-- An account begins at the height at which its subnet was last activated. -/
theorem exists_latest_of_account {a : Account}
    (ha : (make config).chronicle (fun _ => none) calls subnet = some a) :
    ∃ before, (make config).Latest (Opens subnet) calls before (.activate subnet) ∧
      ((make config).after before).height = a.since := by
  induction calls using List.reverseRecOn generalizing a with
  | nil => cases ha
  | append_singleton calls last ih =>
    rw [chronicle_concat] at ha
    by_cases hopens : Opens subnet ((make config).after calls) last
    · obtain ⟨rfl, hok⟩ := id hopens
      rw [note, if_pos ⟨rfl, hok⟩] at ha
      cases ha
      exact ⟨calls, (latest_concat_of_kind hopens).mpr ⟨rfl, rfl⟩, rfl⟩
    · simp only [latest_concat_of_not_kind hopens]
      cases last with
      | activate opened =>
        have hother : ¬(opened = subnet ∧ (((make config).after calls).activate opened).isOk) := by
          rintro ⟨rfl, hok⟩
          exact hopens ⟨rfl, hok⟩
        rw [note, if_neg hother] at ha
        exact ih ha
      | deactivate closed =>
        rw [note] at ha
        split at ha
        · cases ha
        · exact ih ha
      | advance height =>
        rw [note] at ha
        split at ha
        · exact ih ha
        · obtain ⟨a', ha', rfl⟩ := Option.map_eq_some_iff.mp ha
          obtain ⟨before, hlatest, hsince⟩ := ih ha'
          exact ⟨before, hlatest, hsince⟩
      | registerChain | onScope => exact ih ha

/-! ## Scopes -/

/-- The active scope of a subnet is one that was opened for it. -/
def Housed (r : Registry) : Prop :=
  ∀ subnet handle, r.active.get? subnet = some handle →
    ∃ scope, r.opened[handle]? = some ⟨subnet, scope⟩

/-- Handles stay with the subnets for which they were given out, whatever is called. -/
theorem Housed.step (h : r.Housed) (call : RegistryCall) : (r.step call).1.Housed := by
  cases call with
  | activate opened =>
    obtain ⟨e, -, hstep⟩ | ⟨scope, signals, -, -, -, hstep⟩ := r.step_activate_cases opened <;>
      rw [hstep]
    · exact h
    · intro subnet handle hactive
      rw [get?_active_install] at hactive
      split at hactive
      · next heq =>
        cases hactive
        exact ⟨scope, by rw [heq, install, List.getElem?_concat_length]⟩
      · obtain ⟨scope', hopened⟩ := h subnet handle hactive
        have hlt : handle < r.opened.length := (List.getElem?_eq_some_iff.mp hopened).1
        exact ⟨scope', by rw [install, List.getElem?_append_left hlt, hopened]⟩
  | deactivate closed =>
    simp only [Registry.step, Registry.deactivate]
    cases r.active.get? closed with
    | none => exact h
    | some closedHandle =>
      intro subnet handle hactive
      simp only [Table.get?_erase] at hactive
      split at hactive
      · cases hactive
      · exact h subnet handle hactive
  | advance height =>
    simp only [Registry.step, Registry.advance]
    split <;> exact h
  | registerChain => exact h
  | onScope used call =>
    rw [step_onScope]
    intro subnet handle hactive
    obtain ⟨scope, hopened⟩ := h subnet handle hactive
    rw [List.getElem?_modify, hopened]
    by_cases hused : used = handle <;> simp [hused]

theorem Housed.after (h : r.Housed) (calls : List RegistryCall) : (r.after calls).Housed := by
  induction calls generalizing r with
  | nil => exact h
  | cons call rest ih => exact ih (h.step call)

theorem housed_make (config : ThrottleConfig) : (make config).Housed := nofun

theorem config_after (r : Registry) (calls : List RegistryCall) :
    (r.after calls).config = r.config := by
  induction calls generalizing r with
  | nil => rfl
  | cons call rest ih => exact (ih (r.step call).1).trans (r.config_step call)

/-! ## The books -/

/-- What a registry keeps track of after calls on a new one. -/
structure Booked (config : ThrottleConfig) (calls : List RegistryCall) (r : Registry) : Prop where
  /-- A subnet has a history exactly where its scope is active, -/
  history_iff : ∀ subnet, (r.history.get? subnet).isSome ↔ (r.handle? subnet).isSome
  /-- and the scope was opened for it. -/
  housed : r.Housed
  /-- A history is never empty, and lies between the latest activation and the height reached. -/
  history_heights : ∀ subnet t, r.history.get? subnet = some t → t.entries ≠ [] ∧
    ∃ before, (make config).Latest (Opens subnet) calls before (.activate subnet) ∧
      ∀ e ∈ t.entries, ((make config).after before).height ≤ e.1 ∧ e.1 ≤ r.height
  /-- A chain is of the subnet it was last registered for unless this was deactivated later, -/
  subnet_iff : ∀ chain subnet, r.oracle.subnetOf chain = .ok subnet ↔
    ∃ before, (make config).Latest (Moves chain subnet) calls before (.registerChain chain subnet)
  /-- and is unknown otherwise. -/
  subnet_unknown : ∀ chain e, r.oracle.subnetOf chain = .error e → e = .unknownChain chain
  /-- The scope of a chain is the active one of its subnet, if there is one. -/
  chain_scope : ∀ chain, r.handleForChain? chain =
    match r.oracle.subnetOf chain with
    | .ok subnet => r.handle? subnet
    | .error _ => none
  height_eq : r.height = highest calls
  /-- An advance answers with the height then reached. -/
  advance_eq : ∀ height, (r.advance height).1 = highest (calls ++ [.advance height]) ∧
    (r.advance height).2.height = (r.advance height).1
  /-- An activation is refused for an active subnet and for pools that cannot be accounted for; -/
  refusal_iff : ∀ subnet e, r.activate subnet = .error e ↔
    ((r.handle? subnet).isSome ∧ e = .scopeExists subnet) ∨
    (r.handle? subnet = none ∧ ∃ cause, config.validate = .error cause ∧ e = .throttler cause)
  /-- it then changes nothing and has nothing to report. -/
  refusal_step : ∀ subnet e, r.activate subnet = .error e → r.step (.activate subnet) = (r, [])

/-- **The books are kept.** After any calls on a registry and its scopes, the active scopes, the
histories, the chains and the height agree with each other and with the calls. -/
theorem booked_after_calls (config : ThrottleConfig) (calls : List RegistryCall) :
    Booked config calls ((make config).run calls).1 := by
  have hchronicled := chronicled_run config calls
  rw [run_eq_after] at hchronicled ⊢
  set r := (make config).after calls
  have hconfig : r.config = config := config_after (make config) calls
  have hheight : r.height = highest calls := height_after calls
  constructor
  case history_iff =>
    intro subnet
    rw [handle?, hchronicled.active_iff]
    cases ha : (make config).chronicle (fun _ => none) calls subnet with
    | none => simp [hchronicled.unknown ha]
    | some a =>
      obtain ⟨t, ht, -⟩ := hchronicled.known ha
      simp [ht]
  case housed => exact (housed_make config).after calls
  case history_heights =>
    intro subnet t ht
    cases ha : (make config).chronicle (fun _ => none) calls subnet with
    | none =>
      rw [hchronicled.unknown ha] at ht
      cases ht
    | some a =>
      obtain ⟨t', ht', htells⟩ := hchronicled.known ha
      obtain rfl : t' = t := Option.some.inj (ht'.symm.trans ht)
      obtain ⟨before, hlatest, hsince⟩ := exists_latest_of_account ha
      refine ⟨htells.entries_ne_nil, before, hlatest, fun e he => ⟨?_, htells.entries_le e he⟩⟩
      exact hsince ▸ htells.since_le_of_mem he
  case subnet_iff =>
    intro chain subnet
    exact ChainMap.resolve_eq_ok_iff.trans get?_chains_after_eq_some_iff
  case subnet_unknown =>
    intro chain e he
    simp only [oracle, ChainMap.resolve] at he
    split at he <;> cases he
    rfl
  case chain_scope =>
    intro chain
    simp only [handleForChain?, oracle, ChainMap.resolve]
    cases r.chains.get? chain <;> rfl
  case height_eq => exact hheight
  case advance_eq =>
    intro height
    obtain ⟨hanswer, hreached⟩ := r.advance_height height
    have hafter : ((make config).after (calls ++ [.advance height])).height =
        highest (calls ++ [.advance height]) := height_after _
    refine ⟨?_, hreached.trans hanswer.symm⟩
    rw [← hafter, after_concat, hanswer, ← hreached]
    rfl
  case refusal_iff =>
    intro subnet e
    rw [activate_eq_error_iff, hconfig]
  case refusal_step => exact fun subnet e he => step_activate_of_error he

end Registry

end StakeGuard
