import StakeGuard.Proofs.Throttling

/-!
# What a node comes to hold

A grant never lifts what a node holds of the validator pool above the share it has at that moment,
nor what it holds of the pool for everyone above the cap (`Budget.Within`); a return only lowers
both. Whatever a call does to a node is one of three things (`Scope.Effect`). Main statement: however
the stake changes in between, a node never holds more of the validator pool than the largest of the
shares it had when it was granted something (`Throttler.held_bounded_after_calls`).
-/

namespace StakeGuard

namespace Budget

variable {b : Budget} {node : NodeId} {size : UInt64} {stake : Stake} {grant : PoolBytes}

/-- With the grant the node holds no more of the validator pool than its share, and no more of the
pool for everyone than the cap, unless it did so before. -/
structure Within (b : Budget) (node : NodeId) (stake : Stake) (grant : PoolBytes) : Prop where
  validator_le : grant.validator ≠ 0 →
    (b.held node).validator.toNat + grant.validator.toNat ≤
      (allowance b.config.validatorPool stake).toNat
  atLarge_le : (b.held node).atLarge.toNat + grant.atLarge.toNat ≤
    max b.config.nodeCap.toNat (b.held node).atLarge.toNat

theorem within_none : b.Within node stake .none where
  validator_le hne := absurd rfl hne
  atLarge_le := Nat.le_max_right _ _

/-- What is planned for a node lifts it no higher than its share and its cap. -/
theorem within_of_plan (h : b.plan node size stake = .ok grant) : b.Within node stake grant := by
  simp only [plan] at h
  split at h
  · cases h
  · next hroom =>
    cases h
    have hshare := toNat_validatorRoom b node stake
    have hcap := toNat_atLargeRoom b node
    have hmin := Amount.toNat_min_le_left (b.validatorRoom node stake) size
    rw [UInt64.not_lt, UInt64.le_iff_toNat_le] at hroom
    constructor
    · intro hne
      have hpos : (Amount.min (b.validatorRoom node stake) size).toNat ≠ 0 :=
        fun hzero => hne (UInt64.toNat_inj.mp hzero)
      simp only
      omega
    · simp only
      omega

end Budget

namespace Throttler

variable {t : Throttler} {set : ValidatorSet} {cancellation : Cancellation} {node : NodeId}
  {size : UInt64} {grant : PoolBytes}

theorem within_of_acquired
    (h : (t.acquireUnlessCancelled set cancellation node size).result = .ok grant) :
    t.budget.Within node (set.stake node) grant := by
  unfold acquireUnlessCancelled at h
  split at h
  · cases h
  split at h
  · cases h
    exact Budget.within_none
  split at h
  · cases h
  split at h
  · next hplan =>
    cases h
    exact Budget.within_of_plan hplan
  · cases h

end Throttler

namespace Scope

open Budget (Closed Drawn Request)

/-- Whether an answer says that bytes have been granted. -/
def Answer.grants : Answer → Bool
  | .bytes _ | .permit _ => true
  | .granted all => all
  | .done | .removed _ | .refusedChange _ | .refusedBytes _ => false

variable {s : Scope} {call : ScopeCall} {node : NodeId} {size : UInt64}

theorem Answer.ofBytes_eq_bytes {result : Except ThrottleError PoolBytes} {granted : PoolBytes}
    (h : ofBytes result = .bytes granted) : result = .ok granted := by
  cases result with
  | error e => cases h
  | ok given =>
    cases h
    rfl

theorem grants_answer {asked : NodeId × UInt64} (hasked : call.asked? = some asked)
    (result : Except ThrottleError PoolBytes) :
    (call.answer result).grants = result.isOk := by
  cases call with
  | acquire | tryAcquire | acquireUnlessCancelled | acquirePermit => cases result <;> rfl
  | change | register | dropPermit | release => cases hasked

/-- What a call can do to the bytes that a node holds. -/
inductive Effect (s : Scope) (call : ScopeCall) (node : NodeId) : Prop
  | kept (hheld : (s.call call).scope.throttler.budget.held node = s.throttler.budget.held node)
  | granted {size : UInt64} {grant : PoolBytes} (hasked : call.asked? = some (node, size))
    (hgrants : (s.call call).answer.grants)
    (hwithin : s.throttler.budget.Within node (s.roster.set.stake node) grant)
    (hdrawn : Drawn s.throttler.budget (s.call call).scope.throttler.budget node grant)
  | returned {bytes : PoolBytes}
    (hdrawn : Drawn (s.call call).scope.throttler.budget s.throttler.budget node bytes)

/-- What is granted to a node keeps it within the share that it has at the moment of the call. -/
theorem within_of_asked (h : Closed s.throttler.budget)
    (hasked : call.asked? = some (node, size)) :
    ∃ result, (s.call call).answer = call.answer result ∧
      Request s.throttler.budget node size result (s.call call).scope.throttler.budget ∧
      ∀ grant, result = .ok grant →
        s.throttler.budget.Within node (s.roster.set.stake node) grant := by
  obtain ⟨cancellation, hanswer, hthrottler, -⟩ := call_eq_of_asked (s := s) hasked
  obtain ⟨-, hrequest⟩ :=
    Throttler.request_acquireUnlessCancelled s.roster.set node size h cancellation
  rw [hthrottler]
  exact ⟨_, hanswer, hrequest, fun grant hok => Throttler.within_of_acquired hok⟩

/-- Every call has one of the three effects on a node. -/
theorem effect (h : Closed s.throttler.budget) (call : ScopeCall) (node : NodeId) :
    s.Effect call node := by
  by_cases hnode : call.node? = some node
  · obtain ⟨⟨n, size⟩, hor, rfl⟩ := Option.map_eq_some_iff.mp hnode
    rcases Option.or_eq_some_iff.mp hor with hasked | ⟨-, hreturned⟩
    · obtain ⟨result, hanswer, hrequest, hwithin⟩ := within_of_asked h hasked
      cases hrequest with
      | granted hcount hdrawn =>
        refine .granted hasked ?_ (hwithin _ rfl) hdrawn
        rw [hanswer, grants_answer hasked]
        rfl
      | refused hremaining husage =>
        exact .kept (Budget.held_congr (by rw [husage]))
    · obtain ⟨result, -, -, hreturn⟩ := call_of_returned h hreturned
      generalize hafter : (s.call call).scope.throttler.budget = after at hreturn
      cases hreturn with
      | taken hsize hcount hfirst hdrawn => exact .returned (hafter ▸ hdrawn)
      | refused hsize => exact .kept (by rw [hafter])
  · exact .kept (held_call_of_ne h hnode)

/-- No call lifts what a node holds of the pool for everyone above the cap, unless it was there before.
-/
theorem Effect.atLarge_le (h : s.Effect call node) :
    ((s.call call).scope.throttler.budget.held node).atLarge.toNat ≤
      max s.throttler.budget.config.nodeCap.toNat
        (s.throttler.budget.held node).atLarge.toNat := by
  cases h with
  | kept hheld =>
    rw [hheld]
    exact Nat.le_max_right _ _
  | granted hasked hgrants hwithin hdrawn =>
    rw [hdrawn.atLarge_held]
    exact hwithin.atLarge_le
  | returned hdrawn =>
    have hheld := hdrawn.atLarge_held
    omega

/-- What a node holds of the validator pool rises by a grant only, and then at most to its share. -/
theorem Effect.validator_le (h : s.Effect call node) :
    ((s.call call).scope.throttler.budget.held node).validator.toNat ≤
        (s.throttler.budget.held node).validator.toNat ∨
      (call.asked?.any (·.1 = node) ∧ (s.call call).answer.grants) ∧
        ((s.call call).scope.throttler.budget.held node).validator.toNat ≤
          (allowance s.throttler.budget.config.validatorPool
            (s.roster.set.stake node)).toNat := by
  cases h with
  | kept hheld => exact .inl (by rw [hheld])
  | @granted size grant hasked hgrants hwithin hdrawn =>
    rw [hdrawn.validator_held]
    by_cases hnone : grant.validator = 0
    · left
      rw [hnone]
      exact Nat.le_refl _
    · exact .inr ⟨⟨by simp [hasked], hgrants⟩, hwithin.validator_le hnone⟩
  | returned hdrawn =>
    have hheld := hdrawn.validator_held
    exact .inl (by omega)

end Scope

/-- The largest part of a pool in proportion to one of some stakes, zero where there are none. -/
def largestShare (pool : UInt64) : List Stake → Nat
  | [] => 0
  | stake :: rest => max (allowance pool stake).toNat (largestShare pool rest)

namespace Throttler

open Budget (Closed Request)

variable {config : ThrottleConfig} {t : Throttler} {signals : List Signal}

/-- The stakes that a node had, one after the other, when a call for bytes for it was granted. -/
def grantedStakes (t : Throttler) (node : NodeId) : List (Roster × ScopeCall) → List Stake
  | [] => []
  | (roster, call) :: rest =>
    let reply := Scope.call ⟨roster, t⟩ call
    let later := reply.scope.throttler.grantedStakes node rest
    if call.asked?.any (·.1 = node) ∧ reply.answer.grants then roster.set.stake node :: later
    else later

/-- Nor do any calls. -/
theorem atLarge_after_le (h : Closed t.budget) (node : NodeId)
    (calls : List (Roster × ScopeCall)) :
    ((t.after calls).budget.held node).atLarge.toNat ≤
      max t.budget.config.nodeCap.toNat (t.budget.held node).atLarge.toNat := by
  induction calls generalizing t with
  | nil => exact Nat.le_max_right _ _
  | cons c rest ih =>
    obtain ⟨hclosed, hconfig, -⟩ := Scope.call_sound (s := ⟨c.1, t⟩) h c.2
    have hrest := ih hclosed
    have hstep := (Scope.effect (s := ⟨c.1, t⟩) h c.2 node).atLarge_le
    rw [hconfig] at hrest
    exact hrest.trans (Nat.max_le.mpr ⟨Nat.le_max_left _ _, hstep⟩)

/-- By induction on the calls: each either lowers what the node holds or is listed among those that
granted it something. -/
theorem validator_after_le (h : Closed t.budget) (node : NodeId)
    (calls : List (Roster × ScopeCall)) :
    ((t.after calls).budget.held node).validator.toNat ≤
      max (t.budget.held node).validator.toNat
        (largestShare t.budget.config.validatorPool (t.grantedStakes node calls)) := by
  induction calls generalizing t with
  | nil => exact Nat.le_max_left _ _
  | cons c rest ih =>
    obtain ⟨hclosed, hconfig, -⟩ := Scope.call_sound (s := ⟨c.1, t⟩) h c.2
    have hrest := ih hclosed
    have hstep := (Scope.effect (s := ⟨c.1, t⟩) h c.2 node).validator_le
    rw [hconfig] at hrest
    dsimp only at hrest hstep
    have hafter : t.after (c :: rest) =
        (Scope.call ⟨c.1, t⟩ c.2).scope.throttler.after rest := rfl
    rw [hafter, grantedStakes]
    split
    · rw [largestShare]
      omega
    · next hnone =>
      have hlower := hstep.resolve_right fun hgranted => hnone hgranted.1
      omega

theorem held_full (config : ThrottleConfig) (node : NodeId) :
    (Budget.full config).held node = .none := rfl

/-- A throttler starts with full pools, and its accounts are closed after any calls. -/
theorem closed_after_make (hmake : make config = .ok (t, signals)) (label : String)
    (calls : List (Roster × ScopeCall)) :
    (t.relabel label).1.budget = .full config ∧ Closed (t.relabel label).1.budget ∧
      Closed ((t.relabel label).1.after calls).budget ∧
      ((t.relabel label).1.after calls).budget.config = config := by
  obtain ⟨hfull, hclosed⟩ := budget_of_make hmake
  have hstart : Closed (t.relabel label).1.budget := hclosed
  obtain ⟨hafter, hsame⟩ := closed_after hstart calls
  exact ⟨hfull, hstart, hafter, hsame.trans (congrArg Budget.config hfull)⟩

/-- **What a node holds is bounded by the shares it has had.** After any calls, between which the
validators may change in any way, no node holds more of the pool for everyone than the cap, nor more
of the validator pool than the largest share it had at a granted call for bytes. A grant from the
validator pool leaves the node within the share that it has at that call. -/
theorem held_bounded_after_calls (hmake : make config = .ok (t, signals)) (label : String)
    (calls : List (Roster × ScopeCall)) :
    let start := (t.relabel label).1
    let b := (start.after calls).budget
    (∀ node, (b.held node).atLarge ≤ config.nodeCap ∧
      (b.held node).validator.toNat ≤
        largestShare config.validatorPool (start.grantedStakes node calls)) ∧
    ∀ roster call node size, call.asked? = some (node, size) →
      let reply := Scope.call ⟨roster, start.after calls⟩ call
      let b' := reply.scope.throttler.budget
      ∃ result, reply.answer = call.answer result ∧ Request b node size result b' ∧
        ∀ grant, result = .ok grant → grant.validator ≠ 0 →
          (b'.held node).validator ≤ allowance config.validatorPool (roster.set.stake node) := by
  intro start b
  obtain ⟨hfresh, hclosed, hafter, hconfig⟩ := closed_after_make hmake label calls
  refine ⟨fun node => ⟨?_, ?_⟩, ?_⟩
  · have hcap := atLarge_after_le hclosed node calls
    rw [hfresh, held_full] at hcap
    rw [UInt64.le_iff_toNat_le]
    exact hcap.trans (Nat.max_le.mpr ⟨Nat.le_refl _, Nat.zero_le _⟩)
  · have hshare := validator_after_le hclosed node calls
    rw [hfresh, held_full] at hshare
    exact hshare.trans (Nat.max_le.mpr ⟨Nat.zero_le _, Nat.le_refl _⟩)
  · intro roster call node size hasked reply b'
    obtain ⟨result, hanswer, hrequest, hwithin⟩ :=
      Scope.within_of_asked (s := ⟨roster, start.after calls⟩) hafter hasked
    refine ⟨result, hanswer, hrequest, ?_⟩
    rintro grant rfl hne
    cases hrequest with
    | granted hcount hdrawn =>
      have hshare := (hwithin grant rfl).validator_le hne
      rw [← hdrawn.validator_held, hconfig] at hshare
      exact UInt64.le_iff_toNat_le.mpr hshare

/-- The validator of the sole roster after three more like it have joined. -/
def sharedRoster : Roster where
  set := soleRoster.set.run
    [.add ⟨.ofNat 20 1⟩ none none 1, .add ⟨.ofNat 20 2⟩ none none 1, .add ⟨.ofNat 20 3⟩ none none 1]
  listeners := []

/-- A throttler over ten bytes for validators and six for everyone, of which a node may hold four. -/
def scarce : Throttler := ⟨defaultLabel, .full ⟨10, 6, 4⟩⟩

/-- A sole validator takes its whole share, and then asks for more when others have joined. -/
def dilutingCalls : List (Roster × ScopeCall) :=
  [(soleRoster, .acquire .zero 8), (sharedRoster, .acquire .zero 1)]

/-- A sole validator draws eight of ten bytes. Once its share has shrunk to two bytes it holds more
than that, and what it is granted next comes out of the other pool; with its share restored it draws
on the pool for validators again. -/
theorem held_bounded_after_dilution :
    let before := (scarce.relabel "scope").1.after dilutingCalls
    let reply := Scope.call ⟨soleRoster, before⟩ (.acquire .zero 2)
    make ⟨10, 6, 4⟩ = .ok (scarce, [scarce.pools]) ∧
      (scarce.relabel "scope").1.grantedStakes .zero dilutingCalls = [⟨1, 1⟩, ⟨1, 4⟩] ∧
      allowance 10 ⟨1, 4⟩ = 2 ∧ before.budget.held .zero = ⟨8, 1⟩ ∧
      (before.budget.held .zero).validator.toNat ≤ largestShare 10 [⟨1, 1⟩, ⟨1, 4⟩] ∧
      reply.answer = .bytes ⟨2, 0⟩ ∧
      (reply.scope.throttler.budget.held .zero).validator ≤ allowance 10 ⟨1, 1⟩ := by
  have hmake : make ⟨10, 6, 4⟩ = .ok (scarce, [scarce.pools]) := by decide +kernel
  have hstakes : (scarce.relabel "scope").1.grantedStakes .zero dilutingCalls =
      [⟨1, 1⟩, ⟨1, 4⟩] := by
    decide +kernel
  have hstake : soleRoster.set.stake .zero = ⟨1, 1⟩ := by decide +kernel
  obtain ⟨hbounds, hgrants⟩ := held_bounded_after_calls hmake "scope" dilutingCalls
  obtain ⟨result, hanswer, -, hshare⟩ := hgrants soleRoster (.acquire .zero 2) .zero 2 rfl
  have hreply : ScopeCall.answer result (.acquire .zero 2) = .bytes ⟨2, 0⟩ := by
    rw [← hanswer]
    decide +kernel
  have hlast := hshare ⟨2, 0⟩ (Scope.Answer.ofBytes_eq_bytes hreply) (by decide)
  rw [hstake] at hlast
  refine ⟨hmake, hstakes, by decide +kernel, by decide +kernel, ?_, hanswer.trans hreply, hlast⟩
  rw [← hstakes]
  exact (hbounds .zero).2

end Throttler

end StakeGuard
