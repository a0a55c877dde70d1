import Mathlib.Algebra.BigOperators.Group.List.Lemmas
import StakeGuard.Proofs.ByteEvents
import StakeGuard.Proofs.Entitlement

/-!
# Permits

A permit stands for as many bytes as were asked for, wherever they were drawn from; to drop it gives
back as many, wherever they go. A node that obtains bytes by permits only and gives them back only by
dropping these (`Throttler.UsesPermits`) holds exactly what its live permits stand for
(`Budget.Backs`), so there is always enough to give back. Main statement: no drop ever fails, in
whatever order permits are dropped and whatever others do in the meantime
(`Throttler.backs_after_permits`).
-/

namespace StakeGuard

/-! ## Live permits -/

/-- The live permits of a node after one was asked for. -/
def Permit.join (node : NodeId) (live : List Permit) : Except ThrottleError Permit → List Permit
  | .ok permit => if permit.node = node then permit :: live else live
  | .error _ => live

/-- The bytes that some permits stand for. -/
def Permit.totalSize (permits : List Permit) : Nat := (permits.map (·.size.toNat)).sum

namespace Scope

/-- The live permits of a node after a call. -/
def livePermits (s : Scope) (node : NodeId) (live : List Permit) : ScopeCall → List Permit
  | .acquirePermit asker size =>
    Permit.join node live (s.throttler.acquirePermit s.roster.set asker size).result
  | .dropPermit permit => live.erase permit
  | _ => live

/-- A call of the node is for a permit, drops a live one, or leaves what the node holds. Other nodes may
call what they like. -/
def UsesPermits (s : Scope) (node : NodeId) (live : List Permit) : ScopeCall → Prop
  | .acquirePermit .. => True
  | .dropPermit permit => permit.node = node → permit ∈ live
  | call => call.node? = some node →
    (s.call call).scope.throttler.budget.held node = s.throttler.budget.held node

end Scope

namespace Throttler

variable {t : Throttler} {node : NodeId} {live : List Permit} {calls more : List (Roster × ScopeCall)}

/-- The live permits of a node after a run. -/
def livePermits (t : Throttler) (node : NodeId) (live : List Permit) :
    List (Roster × ScopeCall) → List Permit
  | [] => live
  | (roster, call) :: rest =>
    let s : Scope := ⟨roster, t⟩
    (s.call call).scope.throttler.livePermits node (s.livePermits node live call) rest

/-- In a run the node obtains bytes by permits only, and gives them back only by dropping these. -/
def UsesPermits (t : Throttler) (node : NodeId) (live : List Permit) :
    List (Roster × ScopeCall) → Prop
  | [] => True
  | (roster, call) :: rest =>
    let s : Scope := ⟨roster, t⟩
    s.UsesPermits node live call ∧
      (s.call call).scope.throttler.UsesPermits node (s.livePermits node live call) rest

theorem usesPermits_append :
    t.UsesPermits node live (calls ++ more) ↔
      t.UsesPermits node live calls ∧
        (t.after calls).UsesPermits node (t.livePermits node live calls) more := by
  induction calls generalizing t live with
  | nil => exact (and_iff_right trivial).symm
  | cons c rest ih =>
    simp only [List.cons_append, UsesPermits, ih, and_assoc]
    rfl

end Throttler

/-! ## What permits stand for -/

namespace Budget

variable {b b' : Budget} {node : NodeId} {live : List Permit} {permit : Permit}

/-- The node holds exactly what its live permits stand for. -/
structure Backs (b : Budget) (node : NodeId) (live : List Permit) : Prop where
  node_eq : ∀ permit ∈ live, permit.node = node
  count_eq : (b.held node).count = Permit.totalSize live

namespace Backs

theorem of_held_eq (h : Backs b node live) (hheld : b'.held node = b.held node) :
    Backs b' node live := ⟨h.node_eq, hheld ▸ h.count_eq⟩

/-- The node holds enough to drop any live permit. -/
theorem size_le (h : Backs b node live) (hlive : permit ∈ live) :
    permit.size.toNat ≤ (b.held node).count := by
  rw [h.count_eq, Permit.totalSize, ← List.sum_map_erase (·.size.toNat) hlive]
  exact Nat.le_add_right _ _

theorem cons (h : Backs b node live) (hnode : permit.node = node)
    (hcount : (b'.held node).count = (b.held node).count + permit.size.toNat) :
    Backs b' node (permit :: live) where
  node_eq := List.forall_mem_cons.mpr ⟨hnode, h.node_eq⟩
  count_eq := by
    rw [hcount, h.count_eq, Permit.totalSize, Permit.totalSize, List.map_cons, List.sum_cons]
    exact Nat.add_comm _ _

theorem erase (h : Backs b node live) (hlive : permit ∈ live)
    (hcount : (b.held node).count = (b'.held node).count + permit.size.toNat) :
    Backs b' node (live.erase permit) where
  node_eq other hother := h.node_eq other (List.mem_of_mem_erase hother)
  count_eq := by
    have hsum := List.sum_map_erase (·.size.toNat) hlive
    have hbefore := h.count_eq
    simp only [Permit.totalSize] at hbefore ⊢
    omega

end Backs

end Budget

namespace Throttler

open Budget (Closed Backs)

variable {t : Throttler} {node : NodeId} {live : List Permit} {permit : Permit}

/-- A permit that is granted joins the live ones, with its bytes. -/
theorem backs_acquirePermit (h : Closed t.budget) (hbacks : Backs t.budget node live)
    (set : ValidatorSet) (asker : NodeId) (size : UInt64) :
    let reply := t.acquirePermit set asker size
    Backs reply.throttler.budget node (Permit.join node live reply.result) := by
  obtain ⟨⟨-, halike⟩, hrequest⟩ := request_acquire set asker size h
  unfold acquirePermit Reply.map
  generalize (t.acquire set asker size).result = result at hrequest ⊢
  cases hrequest with
  | granted hcount hdrawn =>
    simp only [Except.map, Permit.join]
    split
    · next hnode =>
      subst hnode
      exact hbacks.cons rfl (by rw [hdrawn.count_held, hcount])
    · next hnode => exact hbacks.of_held_eq (halike.held_eq (Ne.symm hnode))
  | refused _ husage => exact hbacks.of_held_eq (Budget.held_congr (by rw [husage]))

/-- What a live permit stands for can be given back whole. -/
theorem dropPermit_eq_ok (h : Closed t.budget) (hbacks : Backs t.budget node live)
    (hlive : permit ∈ live) :
    ∃ returned, (t.dropPermit permit).result = .ok returned ∧
      returned.count = permit.size.toNat ∧
      Budget.Drawn (t.dropPermit permit).throttler.budget t.budget node returned := by
  have hsize := hbacks.size_le hlive
  obtain rfl := hbacks.node_eq permit hlive
  obtain ⟨-, hreturn⟩ := return_release permit.node permit.size h
  unfold dropPermit
  generalize (t.release permit.node permit.size).result = result at hreturn ⊢
  generalize (t.release permit.node permit.size).throttler.budget = after at hreturn ⊢
  cases hreturn with
  | taken _ hcount _ hdrawn => exact ⟨_, rfl, hcount, hdrawn⟩
  | refused hover => exact absurd hsize (Nat.not_le_of_lt hover)

/-- A permit that is dropped leaves them, and as many bytes are given back. -/
theorem backs_dropPermit (h : Closed t.budget) (hbacks : Backs t.budget node live)
    (hlive : permit.node = node → permit ∈ live) :
    Backs (t.dropPermit permit).throttler.budget node (live.erase permit) := by
  by_cases hnode : permit.node = node
  · obtain ⟨returned, -, hcount, hdrawn⟩ := dropPermit_eq_ok h hbacks (hlive hnode)
    exact hbacks.erase (hlive hnode) (by rw [hdrawn.count_held, hcount])
  · obtain ⟨⟨-, halike⟩, -⟩ := return_release permit.node permit.size h
    have hforeign : permit ∉ live := fun hmem => hnode (hbacks.node_eq permit hmem)
    rw [List.erase_of_not_mem hforeign]
    exact hbacks.of_held_eq (halike.held_eq (Ne.symm hnode))

end Throttler

/-! ## Runs -/

namespace Scope

open Budget (Closed Backs)

variable {s : Scope} {call : ScopeCall} {node : NodeId} {live : List Permit}

/-- What a node holds can be changed by its own calls only. -/
theorem held_call_of_own (h : Closed s.throttler.budget)
    (hown : call.node? = some node →
      (s.call call).scope.throttler.budget.held node = s.throttler.budget.held node) :
    (s.call call).scope.throttler.budget.held node = s.throttler.budget.held node := by
  by_cases hnode : call.node? = some node
  · exact hown hnode
  · exact held_call_of_ne h hnode

/-- Every call keeps it so that the live permits are backed. -/
theorem backs_call (h : Closed s.throttler.budget) (hbacks : Backs s.throttler.budget node live)
    (huses : s.UsesPermits node live call) :
    Backs (s.call call).scope.throttler.budget node (s.livePermits node live call) := by
  cases call with
  | acquirePermit asker size => exact Throttler.backs_acquirePermit h hbacks s.roster.set asker size
  | dropPermit permit => exact Throttler.backs_dropPermit h hbacks huses
  | change | register | acquire | tryAcquire | acquireUnlessCancelled | release =>
    exact hbacks.of_held_eq (held_call_of_own h huses)

end Scope

namespace Throttler

open Budget (Closed Backs)

variable {config : ThrottleConfig} {t : Throttler} {signals : List Signal} {node : NodeId}
  {live : List Permit} {calls : List (Roster × ScopeCall)}

/-- So do all calls of a node that uses permits only. -/
theorem backs_after (h : Closed t.budget) (hbacks : Backs t.budget node live)
    (huses : t.UsesPermits node live calls) :
    Backs (t.after calls).budget node (t.livePermits node live calls) := by
  induction calls generalizing t live with
  | nil => exact hbacks
  | cons c rest ih =>
    obtain ⟨hcall, hrest⟩ := huses
    have hclosed := (Scope.call_sound (s := ⟨c.1, t⟩) h c.2).1
    exact ih hclosed (Scope.backs_call (s := ⟨c.1, t⟩) h hbacks hcall) hrest

/-- **Permits never give back too much.** In a run on a new throttler a node obtains bytes by permits
only and gives them back only by dropping permits, in any order; other nodes call what they like, and
the validators may change in any way. After every call the node holds as many bytes as its live permits
stand for, and every drop of one succeeds and gives back all that the permit stands for. -/
theorem backs_after_permits (hmake : make config = .ok (t, signals)) (label : String)
    (huses : (t.relabel label).1.UsesPermits node [] calls) :
    let start := (t.relabel label).1
    (∀ before, before <+: calls →
      ((start.after before).budget.held node).total.toNat =
        Permit.totalSize (start.livePermits node [] before)) ∧
    ∀ before roster permit later, calls = before ++ (roster, .dropPermit permit) :: later →
      permit.node = node →
      ∃ returned, ((start.after before).dropPermit permit).result = .ok returned ∧
        returned.count = permit.size.toNat := by
  intro start
  obtain ⟨hfresh, hclosed, -, -⟩ := closed_after_make hmake label []
  have hstart : Backs start.budget node [] := by
    refine ⟨nofun, ?_⟩
    rw [hfresh, held_full]
    rfl
  constructor
  · rintro before ⟨later, rfl⟩
    have hbacks := backs_after hclosed hstart (usesPermits_append.mp huses).1
    have hafter := (closed_after hclosed before).1
    rw [PoolBytes.toNat_total (hafter.held_count_lt node), hbacks.count_eq]
  · rintro before roster permit later rfl hnode
    obtain ⟨hbefore, hdrop, -⟩ := usesPermits_append.mp huses
    have hbacks := backs_after hclosed hstart hbefore
    obtain ⟨returned, hresult, hcount, -⟩ :=
      dropPermit_eq_ok (closed_after hclosed before).1 hbacks (hdrop hnode)
    exact ⟨returned, hresult, hcount⟩

/-- A sole validator takes a permit of its own pool. When its share has shrunk and another node has
drawn on the pool for everyone, it takes one of the latter; then it drops the older permit. -/
def twoPermits : List (Roster × ScopeCall) :=
  [(soleRoster, .acquirePermit .zero 8), (sharedRoster, .acquire ⟨.ofNat 20 1⟩ 3),
    (sharedRoster, .acquirePermit .zero 1), (sharedRoster, .dropPermit ⟨.zero, 8⟩)]

/-- The older permit gives back a byte to the pool that it was not drawn from, and the younger one is
still good for its byte. -/
theorem backs_after_two_permits :
    let start := (scarce.relabel "scope").1
    let last := start.after twoPermits
    make ⟨10, 6, 4⟩ = .ok (scarce, [scarce.pools]) ∧
      start.livePermits .zero [] twoPermits = [⟨.zero, 1⟩] ∧
      (last.budget.held .zero).total.toNat = Permit.totalSize [⟨.zero, 1⟩] ∧
      last.budget.held .zero = ⟨1, 0⟩ ∧
      ∃ returned, (last.dropPermit ⟨.zero, 1⟩).result = .ok returned ∧ returned.count = 1 := by
  have hmake : make ⟨10, 6, 4⟩ = .ok (scarce, [scarce.pools]) := by decide +kernel
  have hlive : (scarce.relabel "scope").1.livePermits .zero [] twoPermits = [⟨.zero, 1⟩] := by
    decide +kernel
  have huses : (scarce.relabel "scope").1.UsesPermits .zero []
      (twoPermits ++ [(.empty, .dropPermit ⟨.zero, 1⟩)]) := by
    refine usesPermits_append.mpr ⟨?_, fun _ => ?_, trivial⟩
    · exact ⟨trivial, fun hnode => absurd hnode (by decide +kernel), trivial,
        fun _ => by decide +kernel, trivial⟩
    · rw [hlive]
      exact List.mem_singleton.mpr rfl
  obtain ⟨hbacks, hdrops⟩ := backs_after_permits hmake "scope" huses
  have hsum := hbacks twoPermits (List.prefix_append _ _)
  rw [hlive] at hsum
  exact ⟨hmake, hlive, hsum, by decide +kernel, hdrops twoPermits .empty ⟨.zero, 1⟩ [] rfl rfl⟩

end Throttler

end StakeGuard
