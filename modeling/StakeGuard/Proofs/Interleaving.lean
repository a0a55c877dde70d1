import StakeGuard.Proofs.Shares

/-!
# Transfers of several nodes, interleaved

While the validators stay the same, what is left of the validator pool always covers the rest of each
share, so the shared pools never decide how a grant that succeeds is split: what a transfer moves
depends on what the node holds and on its share alone (`Throttler.Steady.transfer_eq_ok`). Main statement:
nodes that take and give back bytes, each in an order of its own, all get the same and leave the same
behind however their calls are interleaved, as long as none is refused
(`Throttler.interleavings_agree`).
-/

namespace StakeGuard

/-- A call of a node on a throttler that takes bytes or gives some back. -/
inductive Transfer where
  | acquire (size : UInt64)
  | release (size : UInt64)
deriving DecidableEq

namespace Transfer

/-- The call of a scope that a transfer of a node is. -/
def call (node : NodeId) : Transfer → ScopeCall
  | acquire size => .acquire node size
  | release size => .release node size

/-- What a transfer moves where a node holds some bytes and has a share of the validator pool. -/
def moved (share : UInt64) (held : PoolBytes) : Transfer → PoolBytes
  | acquire size =>
    let validator := Amount.min (Amount.monus share held.validator) size
    ⟨validator, size - validator⟩
  | release size =>
    let atLarge := Amount.min size held.atLarge
    ⟨size - atLarge, atLarge⟩

/-- What the node holds after a transfer. -/
def holding (share : UInt64) (held : PoolBytes) (x : Transfer) : PoolBytes :=
  match x with
  | acquire _ => held.plus (x.moved share held)
  | release _ => held.minus (x.moved share held)

/-- What a node's own transfers move one after the other, and what the node holds in the end. -/
def replay (share : UInt64) : PoolBytes → List Transfer → List PoolBytes × PoolBytes
  | held, [] => ([], held)
  | held, x :: rest =>
    let later := replay share (x.holding share held) rest
    (x.moved share held :: later.1, later.2)

end Transfer

/-- The part of a list of tagged items that is of one node. -/
def ownPart {α : Type} (node : NodeId) (items : List (NodeId × α)) : List α :=
  (items.filter (·.1 = node)).map (·.2)

section OwnPart

variable {α : Type} {node other : NodeId}

theorem ownPart_cons_self (node : NodeId) (x : α) (items : List (NodeId × α)) :
    ownPart node ((node, x) :: items) = x :: ownPart node items := by
  simp [ownPart]

theorem ownPart_cons_of_ne (h : other ≠ node) (x : α) (items : List (NodeId × α)) :
    ownPart node ((other, x) :: items) = ownPart node items := by
  simp [ownPart, h]

end OwnPart

/-! ## What one transfer does -/

namespace Budget

variable {b b' : Budget} {set : ValidatorSet} {m : StakeMap} {node : NodeId} {size : UInt64}
  {grant returned : PoolBytes}

/-- What is planned for a node depends on its share and its holdings alone: the pool always covers the
rest of a share. -/
theorem Proportionate.eq_moved_of_plan (h : b.Proportionate set) (hm : set.Mirrors m)
    (hclosed : Closed b) (hplan : b.plan node size (set.stake node) = .ok grant) :
    grant = (Transfer.acquire size).moved (allowance b.config.validatorPool (set.stake node))
      (b.held node) := by
  simp only [plan, h.validatorRoom_eq hm hclosed] at hplan
  split at hplan
  · cases hplan
  · exact (Except.ok.inj hplan).symm

/-- A return moves what the node holds for everyone first, whatever its share is. -/
theorem Return.eq_moved (h : Return b node size (.ok returned) b') (share : UInt64) :
    returned = (Transfer.release size).moved share (b.held node) := by
  cases h with
  | taken hsize hcount hfirst hdrawn =>
    have hatLarge : returned.atLarge = Amount.min size (b.held node).atLarge :=
      UInt64.toNat_inj.mp (hfirst.trans (Amount.toNat_min _ _).symm)
    have hvalidator : returned.validator = size - Amount.min size (b.held node).atLarge := by
      apply UInt64.toNat_inj.mp
      rw [← hatLarge, Amount.toNat_sub_of_le (by omega)]
      rw [PoolBytes.count] at hcount
      omega
    rw [Transfer.moved, ← hvalidator, ← hatLarge]

end Budget

namespace Throttler

open Budget (Closed Proportionate)

variable {t : Throttler} {set : ValidatorSet} {m : StakeMap} {node : NodeId} {size : UInt64}
  {x : Transfer} {bytes : PoolBytes}

/-- Carries out a transfer of a node. -/
def transfer (t : Throttler) (set : ValidatorSet) (node : NodeId) : Transfer → Reply PoolBytes
  | .acquire size => t.acquire set node size
  | .release size => t.release node size

/-- The results of transfers one after the other, each under its node, and the throttler after them. -/
def perform (t : Throttler) (set : ValidatorSet) :
    List (NodeId × Transfer) → List (NodeId × Except ThrottleError PoolBytes) × Throttler
  | [] => ([], t)
  | (node, x) :: rest =>
    let reply := t.transfer set node x
    let later := perform reply.throttler set rest
    ((node, reply.result) :: later.1, later.2)

theorem plan_of_acquired (h : (t.acquire set node size).result = .ok bytes) :
    t.budget.plan node size (set.stake node) = .ok bytes := by
  rw [acquire] at h
  split at h
  · next hzero =>
    cases h
    have hmin : Amount.min (t.budget.validatorRoom node (set.stake node)) 0 = 0 :=
      UInt64.toNat_inj.mp (Nat.le_zero.mp (Amount.toNat_min_le_right _ 0))
    simp [Budget.plan, hzero, hmin, PoolBytes.none]
  · rw [Budget.acquire] at h
    split at h
    · next heq =>
      split at heq <;> cases heq
      cases h
      assumption
    · cases h

/-- The accounts are closed, and no node holds more of the validator pool than its share. -/
structure Steady (t : Throttler) (set : ValidatorSet) : Prop where
  closed : Closed t.budget
  proportionate : t.budget.Proportionate set

/-- The share of a node in the validator pool. -/
def share (t : Throttler) (set : ValidatorSet) (node : NodeId) : UInt64 :=
  allowance t.budget.config.validatorPool (set.stake node)

/-- A transfer keeps a throttler steady and moves the bytes of its own node only. -/
theorem Steady.transfer (h : t.Steady set) (node : NodeId) (x : Transfer) :
    (t.transfer set node x).throttler.Steady set ∧
      (t.transfer set node x).throttler.budget.config = t.budget.config ∧
      ∀ other ≠ node,
        (t.transfer set node x).throttler.budget.held other = t.budget.held other := by
  have hcall : (Scope.call ⟨⟨set, []⟩, t⟩ (x.call node)).scope.throttler =
      (t.transfer set node x).throttler := by
    cases x <;> rfl
  have hnode : (x.call node).node? = some node := by cases x <;> rfl
  obtain ⟨hclosed, hconfig, helse⟩ :=
    Scope.call_sound (s := ⟨⟨set, []⟩, t⟩) h.closed (x.call node)
  have hproportionate : (t.after [(⟨set, []⟩, x.call node)]).budget.Proportionate set :=
    proportionate_after h.closed h.proportionate (by simp)
  rw [hcall] at hclosed hconfig helse
  refine ⟨⟨hclosed, hcall ▸ hproportionate⟩, hconfig, fun other hne => ?_⟩
  exact Budget.held_congr (helse other (by simpa [hnode] using Ne.symm hne)).1

/-- What a transfer moves, and what the node holds after it, depends on what the node held and on its
share, not on what is left of the pools. -/
theorem Steady.transfer_eq_ok (h : t.Steady set) (hm : set.Mirrors m)
    (hok : (t.transfer set node x).result = .ok bytes) :
    bytes = x.moved (t.share set node) (t.budget.held node) ∧
      (t.transfer set node x).throttler.budget.held node =
        x.holding (t.share set node) (t.budget.held node) := by
  cases x with
  | acquire size =>
    obtain ⟨-, hrequest⟩ := request_acquire set node size h.closed
    have hplan := plan_of_acquired hok
    have hmoved := h.proportionate.eq_moved_of_plan hm h.closed hplan
    simp only [Throttler.transfer] at hok ⊢
    rw [hok] at hrequest
    cases hrequest with
    | granted hcount hdrawn =>
      refine ⟨hmoved, ?_⟩
      rw [hdrawn.held_eq_plus, hmoved]
      rfl
  | release size =>
    obtain ⟨-, hreturn⟩ := return_release node size h.closed
    simp only [Throttler.transfer] at hok ⊢
    rw [hok] at hreturn
    have hmoved := hreturn.eq_moved (t.share set node)
    cases hreturn with
    | taken hsize hcount hfirst hdrawn =>
      refine ⟨hmoved, ?_⟩
      rw [hdrawn.held_eq_minus, hmoved]
      rfl

/-! ## Interleavings -/

/-- What becomes of a node's own transfers among those of others is what it would be without them. -/
theorem Steady.perform_own (h : t.Steady set) (hm : set.Mirrors m)
    {trace : List (NodeId × Transfer)} (hok : ∀ r ∈ (t.perform set trace).1, r.2.isOk) (node : NodeId) :
    let own := Transfer.replay (t.share set node) (t.budget.held node) (ownPart node trace)
    ownPart node (t.perform set trace).1 = own.1.map .ok ∧
      (t.perform set trace).2.budget.held node = own.2 := by
  induction trace generalizing t with
  | nil => exact ⟨rfl, rfl⟩
  | cons c rest ih =>
    obtain ⟨other, x⟩ := c
    obtain ⟨hsteady, hconfig, hothers⟩ := h.transfer other x
    have hrest := ih hsteady fun r hr => hok r (List.mem_cons_of_mem _ hr)
    have hshare : (t.transfer set other x).throttler.share set node = t.share set node := by
      rw [share, share, hconfig]
    rw [hshare] at hrest
    by_cases hne : other = node
    · subst hne
      have hfirst := hok _ List.mem_cons_self
      cases hresult : (t.transfer set other x).result with
      | error e =>
        rw [hresult] at hfirst
        cases hfirst
      | ok bytes =>
        obtain ⟨hmoved, hleft⟩ := h.transfer_eq_ok hm hresult
        rw [hleft] at hrest
        simp only [perform, ownPart_cons_self, Transfer.replay, List.map_cons, hrest.1, hrest.2,
          hresult, hmoved, and_self]
    · rw [hothers node (Ne.symm hne)] at hrest
      simp only [perform, ownPart_cons_of_ne hne]
      exact hrest

/-- So do all transfers of a trace. -/
theorem Steady.perform (h : t.Steady set) (trace : List (NodeId × Transfer)) :
    (t.perform set trace).2.Steady set ∧
      (t.perform set trace).2.budget.config = t.budget.config := by
  induction trace generalizing t with
  | nil => exact ⟨h, rfl⟩
  | cons c rest ih =>
    obtain ⟨hsteady, hconfig, -⟩ := h.transfer c.1 c.2
    obtain ⟨hrest, hsame⟩ := ih hsteady
    exact ⟨hrest, hsame.trans hconfig⟩

theorem steady_of_make {config : ThrottleConfig} {signals : List Signal}
    (hmake : make config = .ok (t, signals)) (label : String) (set : ValidatorSet) :
    (t.relabel label).1.Steady set := by
  have hproportionate : ((t.relabel label).1.after []).budget.Proportionate set :=
    proportionate_after_make hmake label nofun
  exact ⟨(budget_of_make hmake).2, hproportionate⟩

/-- **Handlers may interleave.** Each node has a list of transfers to make, in its own order, on a new
throttler of a scope whose validators stay the same. Between any two interleavings of the lists in
which nothing is refused no transfer differs in what it moves, and what is left of the pools and what
each node holds is the same in the end. -/
theorem interleavings_agree {config : ThrottleConfig} {signals : List Signal}
    (hmake : make config = .ok (t, signals)) (label : String) (changes : List StakeChange)
    {lists : NodeId → List Transfer} {trace trace' : List (NodeId × Transfer)}
    (hown : ∀ node, ownPart node trace = lists node)
    (hown' : ∀ node, ownPart node trace' = lists node)
    (hok : ∀ r ∈ ((t.relabel label).1.perform (.run .empty changes) trace).1, r.2.isOk)
    (hok' : ∀ r ∈ ((t.relabel label).1.perform (.run .empty changes) trace').1, r.2.isOk) :
    let last := (t.relabel label).1.perform (.run .empty changes) trace
    let last' := (t.relabel label).1.perform (.run .empty changes) trace'
    (∀ node, ownPart node last.1 = ownPart node last'.1) ∧
      last.2.budget.remaining = last'.2.budget.remaining ∧
      ∀ node, last.2.budget.usage.get? node = last'.2.budget.usage.get? node := by
  intro last last'
  have hsteady := steady_of_make hmake label (.run .empty changes)
  have hmirrors := (ValidatorSet.Holds.run changes).mirrors
  have hsame : ∀ node, ownPart node last.1 = ownPart node last'.1 ∧
      last.2.budget.held node = last'.2.budget.held node := by
    intro node
    obtain ⟨hresults, hheld⟩ := hsteady.perform_own hmirrors hok node
    obtain ⟨hresults', hheld'⟩ := hsteady.perform_own hmirrors hok' node
    rw [hown] at hresults hheld
    rw [hown'] at hresults' hheld'
    exact ⟨hresults.trans hresults'.symm, hheld.trans hheld'.symm⟩
  obtain ⟨hlast, hconfig⟩ := hsteady.perform trace
  obtain ⟨hlast', hconfig'⟩ := hsteady.perform trace'
  exact ⟨fun node => (hsame node).1, hlast'.closed.eq_of_held_eq hlast.closed
    (hconfig.trans hconfig'.symm) fun node => (hsame node).2⟩

/-- Two validators take more than their shares and give some back, in turns. -/
def inTurns : List (NodeId × Transfer) :=
  [(minorNode, .acquire 5), (majorNode, .acquire 7), (minorNode, .release 3), (majorNode, .release 2)]

/-- The same transfers, where one of them waits until the other is done. -/
def oneByOne : List (NodeId × Transfer) :=
  [(majorNode, .acquire 7), (majorNode, .release 2), (minorNode, .acquire 5), (minorNode, .release 3)]

theorem ownPart_oneByOne (node : NodeId) : ownPart node oneByOne = ownPart node inTurns := by
  have hdistinct : majorNode ≠ minorNode := by decide
  by_cases hminor : minorNode = node
  · subst hminor
    simp [oneByOne, inTurns, ownPart, hdistinct]
  · by_cases hmajor : majorNode = node <;> simp [oneByOne, inTurns, ownPart, hminor, hmajor]

/-- Two validators share scarce pools in turns and one after the other. -/
theorem interleavings_agree_of_pair :
    let last := (scarce.relabel "scope").1.perform (.run .empty pairChanges) inTurns
    let last' := (scarce.relabel "scope").1.perform (.run .empty pairChanges) oneByOne
    make ⟨10, 6, 4⟩ = .ok (scarce, [scarce.pools]) ∧
      (∀ r ∈ last.1, r.2.isOk) ∧ (∀ r ∈ last'.1, r.2.isOk) ∧
      (∀ node, ownPart node last.1 = ownPart node last'.1) ∧
      last.2.budget.remaining = last'.2.budget.remaining ∧ last'.2.budget.remaining = ⟨3, 6⟩ := by
  intro last last'
  have hmake : make ⟨10, 6, 4⟩ = .ok (scarce, [scarce.pools]) := by decide +kernel
  have hok : ∀ r ∈ last.1, r.2.isOk := by decide +kernel
  have hok' : ∀ r ∈ last'.1, r.2.isOk := by decide +kernel
  obtain ⟨hresults, hremaining, -⟩ :=
    interleavings_agree hmake "scope" pairChanges (fun _ => rfl) ownPart_oneByOne hok hok'
  exact ⟨hmake, hok, hok', hresults, hremaining, by decide +kernel⟩

end Throttler

end StakeGuard
