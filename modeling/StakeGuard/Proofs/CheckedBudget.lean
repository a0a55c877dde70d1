import StakeGuard.Proofs.Throttling

/-!
# Budgets with checked arithmetic

A budget adds, subtracts and multiplies words without looking whether the result fits. Here each of
its functions is carried out once more with a check at every such step, and has no answer where a
check fails. Planning never fails, whatever the budget (`Budget.plan?_eq`); taking and giving back do
not where the accounts are closed (`Budget.Closed.commit?_eq`, `Budget.Closed.release?_eq`). Main
statement: with pools that can be accounted for a checked run gets to its end, with the results and
the budget of the run without checks (`Budget.run?_eq_run`).
-/

namespace StakeGuard

/-! ## Checked steps -/

namespace Amount

variable {a b : UInt64}

/-- The exact difference of two words, if it is a word. -/
def sub? (a b : UInt64) : Option UInt64 := if b ≤ a then some (a - b) else none

/-- The exact product of two words, if it is a number of 128 bits. -/
def mul? (a b : UInt64) : Option Nat :=
  if a.toNat * b.toNat < bound * bound then some (a.toNat * b.toNat) else none

theorem add?_of_lt (h : a.toNat + b.toNat < bound) : add? a b = some (a + b) := if_pos h

theorem sub?_of_le (h : b.toNat ≤ a.toNat) : sub? a b = some (a - b) :=
  if_pos (UInt64.le_iff_toNat_le.mpr h)

theorem mul?_eq (a b : UInt64) : mul? a b = some (a.toNat * b.toNat) :=
  if_pos (Nat.mul_lt_mul'' (toNat_lt_bound a) (toNat_lt_bound b))

end Amount

namespace PoolBytes

variable {a b : PoolBytes}

/-- Computes `PoolBytes.total` with a check. -/
def total? (b : PoolBytes) : Option UInt64 := Amount.add? b.validator b.atLarge

/-- Computes `PoolBytes.plus` with checks. -/
def plus? (a b : PoolBytes) : Option PoolBytes := do
  return ⟨← Amount.add? a.validator b.validator, ← Amount.add? a.atLarge b.atLarge⟩

/-- Computes `PoolBytes.minus` with checks. -/
def minus? (a b : PoolBytes) : Option PoolBytes := do
  return ⟨← Amount.sub? a.validator b.validator, ← Amount.sub? a.atLarge b.atLarge⟩

theorem total?_eq (h : b.count < Amount.bound) : b.total? = some b.total := Amount.add?_of_lt h

theorem plus?_eq (hvalidator : a.validator.toNat + b.validator.toNat < Amount.bound)
    (hatLarge : a.atLarge.toNat + b.atLarge.toNat < Amount.bound) :
    a.plus? b = some (a.plus b) := by
  simp only [plus?, Amount.add?_of_lt hvalidator, Amount.add?_of_lt hatLarge]
  rfl

theorem minus?_eq (hvalidator : b.validator.toNat ≤ a.validator.toNat)
    (hatLarge : b.atLarge.toNat ≤ a.atLarge.toNat) : a.minus? b = some (a.minus b) := by
  simp only [minus?, Amount.sub?_of_le hvalidator, Amount.sub?_of_le hatLarge]
  rfl

end PoolBytes

/-- Computes `allowance` with its product checked. -/
def allowance? (pool : UInt64) (stake : Stake) : Option UInt64 :=
  if stake.weight = 0 ∨ stake.total = 0 then some 0
  else do
    let share := (← Amount.mul? pool stake.weight) / stake.total.toNat
    return if share < Amount.bound then .ofNat share else pool

/-- A share is computed without any step out of range, whatever the pool and the stake. -/
theorem allowance?_eq (pool : UInt64) (stake : Stake) :
    allowance? pool stake = some (allowance pool stake) := by
  unfold allowance? allowance
  split
  · rfl
  · rw [Amount.mul?_eq]
    rfl

/-! ## Checked budgets -/

/-- A call on a budget, for a node with the stake that it has at the moment. -/
inductive BudgetCall where
  | acquire (node : NodeId) (size : UInt64) (stake : Stake)
  | release (node : NodeId) (size : UInt64)

namespace Budget

variable {b : Budget} {node : NodeId} {size : UInt64} {stake : Stake} {grant : PoolBytes}

/-- Carries out `Budget.validatorRoom` with every step checked. -/
def validatorRoom? (b : Budget) (node : NodeId) (stake : Stake) : Option UInt64 :=
  if stake.weight = 0 then some 0
  else do
    let share ← allowance? b.config.validatorPool stake
    return Amount.min (Amount.monus share (b.held node).validator) b.remaining.validator

/-- Carries out `Budget.plan` with every step checked. -/
def plan? (b : Budget) (node : NodeId) (size : UInt64) (stake : Stake) :
    Option (Except ThrottleError PoolBytes) := do
  let validator := Amount.min (← b.validatorRoom? node stake) size
  let room := b.atLargeRoom node
  let atLarge ← Amount.sub? size validator
  if room < atLarge then return .error (.exhausted node size (← Amount.add? validator room))
  else return .ok { validator, atLarge }

/-- Carries out `Budget.commit` with every step checked. -/
def commit? (b : Budget) (node : NodeId) (grant : PoolBytes) : Option Budget := do
  if (← grant.total?) = 0 then return b
  else
    let remaining ← b.remaining.minus? grant
    let held ← (b.held node).plus? grant
    return { b with
      remaining
      usage := b.usage.insert node held
      refused := b.refused.erase node }

/-- Carries out `Budget.acquire` with every step checked. -/
def acquire? (b : Budget) (node : NodeId) (size : UInt64) (stake : Stake) :
    Option (Except ThrottleError PoolBytes × Budget) := do
  match ← b.plan? node size stake with
  | .ok grant => return (.ok grant, ← b.commit? node grant)
  | .error e => return (.error e, b.markRefused node)

/-- Carries out `Budget.release` with every step checked. -/
def release? (b : Budget) (node : NodeId) (size : UInt64) :
    Option (Except ThrottleError PoolBytes × Budget) :=
  if size = 0 then some (.ok .none, b)
  else do
    let held := b.held node
    let outstanding ← held.total?
    if outstanding < size then return (.error (.overRelease node size outstanding), b)
    else
      let atLarge := Amount.min size held.atLarge
      let returned : PoolBytes := ⟨← Amount.sub? size atLarge, atLarge⟩
      let left ← held.minus? returned
      let remaining ← b.remaining.plus? returned
      return (.ok returned, { b with
        remaining
        usage := settle b.usage node left
        refused := b.refused.erase node })

/-! ## No check fails -/

theorem validatorRoom?_eq (b : Budget) (node : NodeId) (stake : Stake) :
    b.validatorRoom? node stake = some (b.validatorRoom node stake) := by
  unfold validatorRoom? validatorRoom
  split
  · rfl
  · rw [allowance?_eq]
    rfl

/-- A plan is made without any step out of range: a request covers what it takes from the validator
pool, and what is available to a refused request is less than the request. -/
theorem plan?_eq (b : Budget) (node : NodeId) (size : UInt64) (stake : Stake) :
    b.plan? node size stake = some (b.plan node size stake) := by
  have hle := Amount.toNat_min_le_right (b.validatorRoom node stake) size
  have hsize := Amount.toNat_lt_bound size
  simp only [plan?, plan, validatorRoom?_eq, Option.bind_eq_bind, Option.bind_some,
    Amount.sub?_of_le hle]
  split
  · next hroom =>
    rw [UInt64.lt_iff_toNat_lt, Amount.toNat_sub_of_le hle] at hroom
    rw [Amount.add?_of_lt (by omega)]
    rfl
  · rfl

namespace Closed

/-- Bytes that fit the pools can be taken out of them and added to what a node holds: a node holds no
more than what is missing from the pools. -/
theorem commit?_eq (h : Closed b) (hcount : grant.count < Amount.bound) (hfits : b.Fits grant) :
    b.commit? node grant = some (b.commit node grant) := by
  have hpools := h.pools_lt
  have hvalidator := h.validator_add_le node
  have hatLarge := h.atLarge_add_le node
  obtain ⟨hfitsValidator, hfitsAtLarge⟩ := hfits
  have hheld : (b.held node).plus? grant = some ((b.held node).plus grant) :=
    PoolBytes.plus?_eq (by omega) (by omega)
  simp only [Budget.commit?, Budget.commit, PoolBytes.total?_eq hcount,
    PoolBytes.minus?_eq hfitsValidator hfitsAtLarge, hheld, Option.bind_eq_bind, Option.bind_some]
  split <;> rfl

theorem acquire?_eq (h : Closed b) (node : NodeId) (size : UInt64) (stake : Stake) :
    b.acquire? node size stake = some (b.acquire node size stake) := by
  simp only [acquire?, acquire, plan?_eq, Option.bind_eq_bind, Option.bind_some]
  cases hplan : b.plan node size stake with
  | error e => rfl
  | ok grant =>
    obtain ⟨hcount, hfits⟩ := fits_of_plan hplan
    simp only [h.commit?_eq (hcount ▸ Amount.toNat_lt_bound size) hfits]
    rfl

/-- Where the accounts are closed, giving bytes back needs no checks. -/
theorem release?_eq (h : Closed b) (node : NodeId) (size : UInt64) :
    b.release? node size = some (b.release node size) := by
  have hpools := h.pools_lt
  have hvalidator := h.validator_add_le node
  have hatLarge := h.atLarge_add_le node
  have hcount := h.held_count_lt node
  have htotal := PoolBytes.toNat_total hcount
  have hsize := Amount.toNat_min_le_left size (b.held node).atLarge
  have hheld := Amount.toNat_min_le_right size (b.held node).atLarge
  have hrest := Amount.toNat_sub_of_le hsize
  simp only [Budget.release?, Budget.release, PoolBytes.total?_eq hcount, Option.bind_eq_bind,
    Option.bind_some, Amount.sub?_of_le hsize]
  split
  · rfl
  split
  · rfl
  · next hover =>
    rw [UInt64.lt_iff_toNat_lt, htotal, PoolBytes.count] at hover
    have hmin : (Amount.min size (b.held node).atLarge).toNat =
        min size.toNat (b.held node).atLarge.toNat := Amount.toNat_min _ _
    rw [PoolBytes.minus?_eq (by simp only; omega) hheld,
      PoolBytes.plus?_eq (by simp only; omega) (by simp only; omega)]
    rfl

end Closed

/-! ## Runs -/

/-- The result of a call and the budget after it. -/
def call (b : Budget) : BudgetCall → Except ThrottleError PoolBytes × Budget
  | .acquire node size stake => b.acquire node size stake
  | .release node size => b.release node size

/-- The same with every step checked. -/
def call? (b : Budget) : BudgetCall → Option (Except ThrottleError PoolBytes × Budget)
  | .acquire node size stake => b.acquire? node size stake
  | .release node size => b.release? node size

/-- The results of calls one after the other, and the budget after them. -/
def run (b : Budget) : List BudgetCall → List (Except ThrottleError PoolBytes) × Budget
  | [] => ([], b)
  | call :: rest =>
    let reply := b.call call
    let later := reply.2.run rest
    (reply.1 :: later.1, later.2)

/-- The same with every step checked; there is no answer where a check fails. -/
def run? (b : Budget) : List BudgetCall → Option (List (Except ThrottleError PoolBytes) × Budget)
  | [] => some ([], b)
  | call :: rest => do
    let reply ← b.call? call
    let later ← reply.2.run? rest
    return (reply.1 :: later.1, later.2)

/-- One call keeps the accounts closed and passes its checks, and what it moves can be counted in a
word. -/
theorem Closed.call (h : Closed b) (call : BudgetCall) :
    Closed (b.call call).2 ∧ b.call? call = some (b.call call) ∧
      ∀ grant, (b.call call).1 = .ok grant → grant.count < Amount.bound := by
  cases call with
  | acquire node size stake =>
    obtain ⟨⟨hclosed, -⟩, hrequest⟩ := sound_acquire h node size stake
    refine ⟨hclosed, h.acquire?_eq node size stake, fun grant hok => ?_⟩
    simp only [Budget.call] at hok
    rw [hok] at hrequest
    cases hrequest with
    | granted hcount => exact hcount ▸ Amount.toNat_lt_bound size
  | release node size =>
    obtain ⟨⟨hclosed, -⟩, hreturn⟩ := sound_release h node size
    refine ⟨hclosed, h.release?_eq node size, fun returned hok => ?_⟩
    simp only [Budget.call] at hok
    rw [hok] at hreturn
    cases hreturn with
    | taken hsize hcount => exact hcount ▸ Amount.toNat_lt_bound size

/-- So do all calls of a run. -/
theorem Closed.run (h : Closed b) (calls : List BudgetCall) :
    Closed (b.run calls).2 ∧ b.run? calls = some (b.run calls) ∧
      ∀ grant, .ok grant ∈ (b.run calls).1 → grant.count < Amount.bound := by
  induction calls generalizing b with
  | nil => exact ⟨h, rfl, nofun⟩
  | cons call rest ih =>
    obtain ⟨hclosed, hchecked, hgrant⟩ := h.call call
    obtain ⟨hend, hrest, hgrants⟩ := ih hclosed
    refine ⟨hend, ?_, fun grant hmem => ?_⟩
    · simp only [run?, hchecked, hrest, Option.bind_eq_bind, Option.bind_some, Budget.run]
      rfl
    · rcases List.mem_cons.mp hmem with hfirst | hlater
      · exact hgrant grant hfirst.symm
      · exact hgrants grant hlater

/-- **All arithmetic is exact.** From full pools that can be accounted for, and for requests of any size
with any stake, a weight above the total included, the run with every sum, difference and product
checked is the run without checks. The totals of what any node then holds, and of all that has been
granted or given back, are words as well. -/
theorem run?_eq_run {config : ThrottleConfig} (hvalid : config.validate = .ok ())
    (calls : List BudgetCall) :
    let outcome := (full config).run calls
    (full config).run? calls = some outcome ∧
    (∀ node, (outcome.2.held node).total? = some (outcome.2.held node).total) ∧
    ∀ grant, .ok grant ∈ outcome.1 → grant.total? = some grant.total := by
  intro outcome
  obtain ⟨hclosed, hchecked, hgrants⟩ := (Closed.full hvalid).run calls
  exact ⟨hchecked, fun node => PoolBytes.total?_eq (hclosed.held_count_lt node),
    fun grant hmem => PoolBytes.total?_eq (hgrants grant hmem)⟩

/-- Pools of one byte less than a word can count, all but one of them for validators. -/
def brimming : ThrottleConfig := ⟨18446744073709551614, 1, 18446744073709551615⟩

/-- A weight far above the total takes everything, a second node is refused, and all is given back. -/
def brimmingCalls : List BudgetCall :=
  [.acquire .zero 18446744073709551615 ⟨18446744073709551615, 1⟩,
    .acquire ⟨.ofNat 20 1⟩ 18446744073709551615 ⟨5, 3⟩, .release .zero 18446744073709551615]

/-- At the edge of the words every step passes its check. -/
theorem run?_eq_run_of_brimming :
    let outcome := (full brimming).run brimmingCalls
    brimming.validate = .ok () ∧ (full brimming).run? brimmingCalls = some outcome ∧
      outcome.1 = [.ok ⟨18446744073709551614, 1⟩,
        .error (.exhausted ⟨.ofNat 20 1⟩ 18446744073709551615 0), .ok ⟨18446744073709551614, 1⟩] := by
  have hvalid : brimming.validate = .ok () := by decide +kernel
  exact ⟨hvalid, (run?_eq_run hvalid brimmingCalls).1, by decide +kernel⟩

end Budget

end StakeGuard
