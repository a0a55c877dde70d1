import StakeGuard.Proofs.Interleaving

/-!
# Giving back what was just taken

A node takes bytes of its share first and gives back bytes of the pool for everyone first, so one is
not the reverse of the other by itself. While the validators stay the same it is: whoever holds bytes
of the pool for everyone has used up its share (`Budget.SpillsLast`), so a grant to it is all of one
kind, and what another node has just been granted is all that it holds of the pool for everyone. Main
statement: to give back as much as was just granted returns the very same bytes, and leaves the pools
and all holdings as they were before (`Throttler.release_of_acquired`).
-/

namespace StakeGuard

/-! ## One node -/

namespace Amount

variable {a b : UInt64}

theorem min_of_ne_right (h : min a b ≠ b) : min a b = a := by
  unfold min at h ⊢
  split
  · rfl
  · next hgt => exact absurd (if_neg hgt) h

theorem monus_self (a : UInt64) : monus a a = 0 := by
  rw [monus, if_pos UInt64.le_rfl, UInt64.sub_self]

theorem add_monus_of_le (h : b.toNat ≤ a.toNat) : b + monus a b = a := by
  apply UInt64.toNat_inj.mp
  have ha := toNat_lt_bound a
  have hmonus := toNat_monus a b
  rw [toNat_add_of_lt (by omega)]
  omega

end Amount

namespace Transfer

variable {share size : UInt64} {held : PoolBytes}

/-- A node that has used up its share takes nothing more of it. -/
theorem moved_acquire_of_spilled (h : held.validator = share) :
    (acquire size).moved share held = ⟨0, size⟩ := by
  have hmin : Amount.min (Amount.monus share held.validator) size = 0 := by
    rw [h, Amount.monus_self]
    exact if_pos UInt64.zero_le
  simp only [moved, hmin, UInt64.sub_zero]

/-- After a transfer, too, a node that holds bytes of the pool for everyone has used up its share: a
grant spills over only with the last byte of the share, and a return that leaves such bytes takes no
others. -/
theorem spillsLast_holding (x : Transfer) (hshare : held.validator.toNat ≤ share.toNat)
    (h : held.atLarge ≠ 0 → held.validator = share) (hleft : (x.holding share held).atLarge ≠ 0) :
    (x.holding share held).validator = share := by
  cases x with
  | acquire size =>
    by_cases hmin : Amount.min (Amount.monus share held.validator) size = size
    · simp only [holding, moved, PoolBytes.plus, hmin, UInt64.sub_self, UInt64.add_zero] at hleft
      simp only [holding, moved_acquire_of_spilled (h hleft), PoolBytes.plus, UInt64.add_zero,
        h hleft]
    · simp only [holding, moved, PoolBytes.plus, Amount.min_of_ne_right hmin]
      exact Amount.add_monus_of_le hshare
  | release size =>
    simp only [holding, moved, PoolBytes.minus] at hleft ⊢
    have hsize : Amount.min size held.atLarge = size := by
      refine Amount.min_of_ne_right fun hall => hleft ?_
      rw [hall, UInt64.sub_self]
    have hspilled : held.atLarge ≠ 0 := by
      rintro hzero
      have hmin := Amount.toNat_min_le_right size held.atLarge
      rw [hsize, hzero] at hmin
      obtain rfl : size = 0 := UInt64.toNat_inj.mp (Nat.le_zero.mp hmin)
      rw [hsize, hzero] at hleft
      exact hleft (UInt64.sub_self 0)
    rw [hsize, UInt64.sub_self, UInt64.sub_zero, h hspilled]

end Transfer

/-! ## All nodes -/

/-- Whoever holds bytes of the pool for everyone has used up its share of the other. -/
def Budget.SpillsLast (b : Budget) (set : ValidatorSet) : Prop :=
  ∀ node, (b.held node).atLarge ≠ 0 →
    (b.held node).validator = allowance b.config.validatorPool (set.stake node)

/-- A call leaves the budget alone, or is a transfer of some node. -/
theorem Scope.call_cases (s : Scope) (call : ScopeCall) :
    (s.call call).scope.throttler.budget = s.throttler.budget ∨
      ∃ node x, (s.call call).scope.throttler = (s.throttler.transfer s.roster.set node x).throttler := by
  rcases call.kinds with ⟨node, size, hasked⟩ | ⟨node, size, hreturned⟩ | hnode
  · obtain ⟨cancellation, -, hthrottler, -⟩ := call_eq_of_asked (s := s) hasked
    rw [hthrottler]
    cases cancellation with
    | never =>
      rw [Throttler.acquireUnlessCancelled_never]
      exact .inr ⟨node, .acquire size, rfl⟩
    | before => exact .inl rfl
    | during =>
      left
      simp only [Throttler.acquireUnlessCancelled, reduceCtorEq, if_false]
      split <;> rfl
  · obtain ⟨-, hthrottler, -⟩ := call_eq_of_returned (s := s) hreturned
    exact .inr ⟨node, .release size, hthrottler⟩
  · exact .inl (congrArg Throttler.budget (call_of_node?_none hnode))

namespace Throttler

open Budget (Closed SpillsLast)

variable {t : Throttler} {set : ValidatorSet} {m : StakeMap} {node : NodeId} {size : UInt64}
  {grant : PoolBytes} {calls : List (Roster × ScopeCall)}

/-- A transfer that is refused leaves what the node holds. -/
theorem held_of_refused (h : Closed t.budget) (x : Transfer) {e : ThrottleError}
    (herror : (t.transfer set node x).result = .error e) :
    (t.transfer set node x).throttler.budget.held node = t.budget.held node := by
  cases x with
  | acquire size =>
    obtain ⟨-, hrequest⟩ := request_acquire set node size h
    simp only [transfer] at herror ⊢
    rw [herror] at hrequest
    cases hrequest with
    | refused hremaining husage => exact Budget.held_congr (by rw [husage])
  | release size =>
    obtain ⟨-, hreturn⟩ := return_release node size h
    simp only [transfer] at herror ⊢
    generalize (t.release node size).throttler.budget = after at hreturn
    rw [herror] at hreturn
    cases hreturn with
    | refused hsize => rfl

/-- A transfer keeps it so that only who has used up its share holds bytes of the pool for everyone. -/
theorem Steady.spillsLast_transfer (h : t.Steady set) (hm : set.Mirrors m)
    (hlast : t.budget.SpillsLast set) (node : NodeId) (x : Transfer) :
    (t.transfer set node x).throttler.budget.SpillsLast set := by
  obtain ⟨-, hconfig, hothers⟩ := h.transfer node x
  intro other
  rw [hconfig]
  by_cases hother : other = node
  · subst hother
    cases hresult : (t.transfer set other x).result with
    | error e =>
      rw [held_of_refused h.closed x hresult]
      exact hlast other
    | ok bytes =>
      rw [(h.transfer_eq_ok hm hresult).2]
      exact x.spillsLast_holding (h.proportionate other) (hlast other)
  · rw [hothers other hother]
    exact hlast other

/-- While the validators stay the same the accounts stay in order, by induction on the calls. -/
theorem Steady.after (h : t.Steady set) (hm : set.Mirrors m) (hlast : t.budget.SpillsLast set)
    (hfixed : ∀ c ∈ calls, c.1.set = set) :
    (t.after calls).Steady set ∧ (t.after calls).budget.SpillsLast set := by
  induction calls generalizing t with
  | nil => exact ⟨h, hlast⟩
  | cons c rest ih =>
    have hset : c.1.set = set := hfixed c List.mem_cons_self
    have hrest : ∀ d ∈ rest, d.1.set = set := fun d hd => hfixed d (List.mem_cons_of_mem _ hd)
    obtain hsame | ⟨node, x, htransfer⟩ := Scope.call_cases ⟨c.1, t⟩ c.2
    · exact ih ⟨hsame ▸ h.closed, hsame ▸ h.proportionate⟩ (hsame ▸ hlast) hrest
    · simp only [hset] at htransfer
      have hsteady := (h.transfer node x).1
      have hspills := h.spillsLast_transfer hm hlast node x
      rw [← htransfer] at hsteady hspills
      exact ih hsteady hspills hrest

/-- A grant that takes of the share is of a node that holds nothing of the pool for everyone. -/
theorem Steady.unmixed_of_acquired (h : t.Steady set) (hm : set.Mirrors m)
    (hlast : t.budget.SpillsLast set) (hok : (t.acquire set node size).result = .ok grant) :
    (t.budget.held node).atLarge = 0 ∨ grant.validator = 0 := by
  by_cases hspilled : (t.budget.held node).atLarge = 0
  · exact .inl hspilled
  · right
    have hshare : (t.budget.held node).validator = t.share set node := hlast node hspilled
    have hmoved := (h.transfer_eq_ok (x := .acquire size) hm hok).1
    rw [hmoved, Transfer.moved_acquire_of_spilled hshare]

/-- To give back what has just been granted returns the same bytes. -/
theorem Steady.release_eq_ok (h : t.Steady set) (hm : set.Mirrors m)
    (hlast : t.budget.SpillsLast set) (hok : (t.acquire set node size).result = .ok grant) :
    ((t.acquire set node size).throttler.release node size).result = .ok grant := by
  obtain ⟨⟨hclosed, -⟩, hrequest⟩ := request_acquire set node size h.closed
  obtain ⟨-, hreturn⟩ := return_release node size hclosed
  rw [hok] at hrequest
  cases hrequest with
  | granted hcount hdrawn =>
    have hvalidator := hdrawn.validator_held
    have hatLarge := hdrawn.atLarge_held
    have hunmixed : (t.budget.held node).atLarge.toNat = 0 ∨ grant.validator.toNat = 0 :=
      (h.unmixed_of_acquired hm hlast hok).imp (congrArg UInt64.toNat) (congrArg UInt64.toNat)
    generalize ((t.acquire set node size).throttler.release node size).throttler.budget = after
      at hreturn
    generalize ((t.acquire set node size).throttler.release node size).result = result at hreturn ⊢
    cases hreturn with
    | refused hsize =>
      rw [PoolBytes.count] at hsize hcount
      omega
    | @taken returned _ hsize hreturned hfirst hback =>
      rw [PoolBytes.count] at hcount hreturned
      have hsame : returned.atLarge = grant.atLarge := UInt64.toNat_inj.mp (by omega)
      have hrest : returned.validator = grant.validator := by
        apply UInt64.toNat_inj.mp
        rw [hsame] at hreturned
        omega
      rw [show returned = grant from congrArg₂ PoolBytes.mk hrest hsame]

/-- **Taking bytes and giving them back changes nothing.** After any calls with the same validators,
whoever made them and however they were answered, a node that is granted bytes and gives back as many
at once is returned exactly what it was granted; both pools are as they were before, and so is the
record of every node. -/
theorem release_of_acquired {config : ThrottleConfig} {signals : List Signal}
    (hmake : make config = .ok (t, signals)) (label : String) (changes : List StakeChange)
    (hfixed : ∀ c ∈ calls, c.1.set = .run .empty changes) :
    let set := ValidatorSet.run .empty changes
    let before := (t.relabel label).1.after calls
    (before.acquire set node size).result = .ok grant →
    let reply := (before.acquire set node size).throttler.release node size
    reply.result = .ok grant ∧ reply.throttler.budget.remaining = before.budget.remaining ∧
      ∀ other, reply.throttler.budget.usage.get? other = before.budget.usage.get? other := by
  intro set before hok reply
  have hmirrors := (ValidatorSet.Holds.run changes).mirrors
  obtain ⟨hfresh, -, -, -⟩ := closed_after_make hmake label []
  have hstart : (t.relabel label).1.budget.SpillsLast set := by
    intro other hspilled
    rw [hfresh, held_full] at hspilled
    exact absurd rfl hspilled
  obtain ⟨hsteady, hlast⟩ := (steady_of_make hmake label set).after hmirrors hstart hfixed
  have hreturned : reply.result = .ok grant := hsteady.release_eq_ok hmirrors hlast hok
  obtain ⟨⟨hclosed, halike⟩, hrequest⟩ := request_acquire set node size hsteady.closed
  obtain ⟨⟨hclosed', halike'⟩, hreturn⟩ := return_release node size hclosed
  rw [hok] at hrequest
  change Budget.Return _ node size reply.result reply.throttler.budget at hreturn
  rw [hreturned] at hreturn
  have hheld : ∀ other, reply.throttler.budget.held other = before.budget.held other := by
    intro other
    by_cases hother : other = node
    · rw [hother]
      cases hrequest with
      | granted hcount hdrawn =>
        cases hreturn with
        | taken hsize hreturned hfirst hback => rw [hback.held_eq_minus, hdrawn.held_eq_minus]
    · rw [halike'.held_eq hother, halike.held_eq hother]
  exact ⟨hreturned, hsteady.closed.eq_of_held_eq hclosed'
    (halike'.config_eq.trans halike.config_eq) hheld⟩

/-- A validator holds two of the three bytes of its share, a stranger one of the other pool. -/
def spillingCalls : List (Roster × ScopeCall) :=
  [(pairRoster, .acquire minorNode 2), (pairRoster, .acquire strangeNode 1)]

/-- The validator takes three bytes more, the first of its share and two of the other pool. -/
theorem release_of_acquired_after_spilling :
    let before := (scarce.relabel "scope").1.after spillingCalls
    let reply := (before.acquire (.run .empty pairChanges) minorNode 3).throttler.release minorNode 3
    make ⟨10, 6, 4⟩ = .ok (scarce, [scarce.pools]) ∧
      (∀ c ∈ spillingCalls, c.1.set = .run .empty pairChanges) ∧
      (before.acquire (.run .empty pairChanges) minorNode 3).result = .ok ⟨1, 2⟩ ∧
      reply.result = .ok ⟨1, 2⟩ ∧ reply.throttler.budget.remaining = before.budget.remaining ∧
      before.budget.remaining = ⟨8, 5⟩ := by
  have hmake : make ⟨10, 6, 4⟩ = .ok (scarce, [scarce.pools]) := by decide +kernel
  have hfixed : ∀ c ∈ spillingCalls, c.1.set = .run .empty pairChanges := by
    simp [spillingCalls, pairRoster]
  have hok : (((scarce.relabel "scope").1.after spillingCalls).acquire (.run .empty pairChanges)
      minorNode 3).result = .ok ⟨1, 2⟩ := by
    decide +kernel
  obtain ⟨hresult, hremaining, -⟩ := release_of_acquired hmake "scope" pairChanges hfixed hok
  exact ⟨hmake, hfixed, hok, hresult, hremaining, by decide +kernel⟩

/-- Where the validators change it is not so: what a stranger holds of the pool for everyone is
returned first once it has become a validator and taken of its share. -/
example :
    let set := ValidatorSet.run .empty pairChanges
    let before := scarce.after [(⟨.empty, []⟩, .acquire minorNode 2)]
    let reply := (before.acquire set minorNode 1).throttler.release minorNode 1
    (before.acquire set minorNode 1).result = .ok ⟨1, 0⟩ ∧ reply.result = .ok ⟨0, 1⟩ := by
  decide +kernel

end Throttler

end StakeGuard
