import Mathlib.Algebra.BigOperators.Ring.Finset
import Mathlib.Algebra.Order.BigOperators.Group.Finset
import StakeGuard.Proofs.Entitlement
import StakeGuard.Proofs.StakeRefinement

/-!
# Shares of the validator pool

While the validators stay the same each node keeps within its share (`Budget.Proportionate`). Shares
are rounded down, so those of any nodes together are no more than the part of the pool in proportion
to their combined weight (`ValidatorSet.sum_share_le`), and what nobody holds is enough for all that
is left of anyone's share (`Budget.Proportionate.share_le`). Main statements: a validator is granted
all of its share, whatever other nodes do (`Throttler.acquire_within_share`), and nodes gain nothing
by dividing their stake (`Throttler.coalition_within_share`).
-/

namespace StakeGuard

/-! ## Shares -/

/-- Parts that are rounded down add up to no more than the part of the sum. -/
theorem sum_mul_div_le {ι : Type} (pool total : Nat) (weight : ι → Nat) (s : Finset ι) :
    ∑ i ∈ s, pool * weight i / total ≤ pool * (∑ i ∈ s, weight i) / total := by
  rcases Nat.eq_zero_or_pos total with rfl | hpos
  · simp
  · rw [Nat.le_div_iff_mul_le hpos]
    calc
      (∑ i ∈ s, pool * weight i / total) * total
      _ = ∑ i ∈ s, pool * weight i / total * total := Finset.sum_mul ..
      _ ≤ ∑ i ∈ s, pool * weight i := Finset.sum_le_sum fun i _ => Nat.div_mul_le_self _ _
      _ = pool * ∑ i ∈ s, weight i := (Finset.mul_sum ..).symm

/-- As a number, the share of a weight within the total is the exact proportion, rounded down. -/
theorem toNat_allowance {pool : UInt64} {stake : Stake}
    (h : stake.weight.toNat ≤ stake.total.toNat) :
    (allowance pool stake).toNat = pool.toNat * stake.weight.toNat / stake.total.toNat := by
  unfold allowance
  split
  · next hnone =>
    rcases hnone with hzero | hzero <;> simp [hzero]
  · have hshare : pool.toNat * stake.weight.toNat / stake.total.toNat ≤ pool.toNat :=
      Nat.div_le_of_le_mul (by rw [Nat.mul_comm]; exact Nat.mul_le_mul_right _ h)
    have hword := Amount.toNat_lt_bound pool
    rw [if_pos (by omega)]
    exact Nat.mod_eq_of_lt (by unfold Amount.bound at hword; omega)

namespace ValidatorSet

variable {s : ValidatorSet} {m : StakeMap}

theorem weight_of_not_contains {node : NodeId} (h : s.contains node = false) :
    s.weight node = 0 := by
  have hnone : s.positions.get? node = none := Table.contains_eq_false_iff.mp h
  unfold weight record?
  rw [hnone]
  rfl

namespace Mirrors

theorem weight_eq_amount (h : s.Mirrors m) (node : NodeId) :
    (s.weight node).toNat = m.amount (·.weight.toNat) node := by
  rw [h.weight]
  unfold Table.amount
  cases m.get? node <;> rfl

theorem sum_weight_le (h : s.Mirrors m) (nodes : Finset NodeId) :
    ∑ node ∈ nodes, (s.weight node).toNat ≤ s.totalWeight.toNat := by
  simp only [h.weight_eq_amount]
  rw [h.total, StakeMap.total_eq_sum]
  exact Table.sum_amount_le _ m nodes

theorem toNat_share (h : s.Mirrors m) (pool : UInt64) (node : NodeId) :
    (allowance pool (s.stake node)).toNat =
      pool.toNat * (s.weight node).toNat / s.totalWeight.toNat := by
  have hle := h.sum_weight_le {node}
  rw [Finset.sum_singleton] at hle
  exact toNat_allowance hle

/-- The shares of any nodes are no more than the part of the pool for all of their weight. -/
theorem sum_share_le (h : s.Mirrors m) (pool : UInt64) (nodes : Finset NodeId) :
    ∑ node ∈ nodes, (allowance pool (s.stake node)).toNat ≤
      pool.toNat * (∑ node ∈ nodes, (s.weight node).toNat) / s.totalWeight.toNat := by
  simp only [h.toNat_share]
  exact sum_mul_div_le ..

/-- All shares together are no more than the pool. -/
theorem sum_share_le_pool (h : s.Mirrors m) (pool : UInt64) (nodes : Finset NodeId) :
    ∑ node ∈ nodes, (allowance pool (s.stake node)).toNat ≤ pool.toNat := by
  refine (h.sum_share_le pool nodes).trans (Nat.div_le_of_le_mul ?_)
  rw [Nat.mul_comm]
  exact Nat.mul_le_mul_right _ (h.sum_weight_le nodes)

end Mirrors

end ValidatorSet

/-! ## Budgets within shares -/

namespace Budget

variable {b b' : Budget} {set : ValidatorSet} {m : StakeMap} {node : NodeId} {size : UInt64}

/-- No node holds more of the validator pool than its share of it. -/
def Proportionate (b : Budget) (set : ValidatorSet) : Prop :=
  ∀ node, (b.held node).validator.toNat ≤
    (allowance b.config.validatorPool (set.stake node)).toNat

theorem amount_usage (f : PoolBytes → Nat) (hnone : f .none = 0) (b : Budget) (node : NodeId) :
    b.usage.amount f node = f (b.held node) := by
  unfold Table.amount held
  cases b.usage.get? node with
  | none => exact hnone.symm
  | some bytes => rfl

theorem amount_usage_eq (b : Budget) (node : NodeId) :
    b.usage.amount (·.validator.toNat) node = (b.held node).validator.toNat :=
  amount_usage (·.validator.toNat) rfl b node

/-- What all nodes hold together is determined by what each of them holds. -/
theorem sum_usage_eq (f : PoolBytes → Nat) (hnone : f .none = 0)
    (hheld : ∀ node, f (b'.held node) = f (b.held node)) : b'.usage.sum f = b.usage.sum f := by
  let nodes := b.usage.keys.toFinset ∪ b'.usage.keys.toFinset
  have hsub : b.usage.keys.toFinset ⊆ nodes := Finset.subset_union_left
  have hsub' : b'.usage.keys.toFinset ⊆ nodes := Finset.subset_union_right
  rw [Table.sum_eq_sum_of_subset f hsub, Table.sum_eq_sum_of_subset f hsub']
  refine Finset.sum_congr rfl fun node _ => ?_
  rw [amount_usage f hnone, amount_usage f hnone, hheld]

/-- What is left of the validator pool is determined by what each node holds of it. -/
theorem Closed.remaining_validator_eq (h : Closed b) (h' : Closed b') (hconfig : b'.config = b.config)
    (hheld : ∀ node, (b'.held node).validator = (b.held node).validator) :
    b'.remaining.validator = b.remaining.validator := by
  have hused : b'.validatorUsed = b.validatorUsed := by
    rw [validatorUsed_eq, validatorUsed_eq]
    exact sum_usage_eq _ rfl fun node => congrArg UInt64.toNat (hheld node)
  have hleft := h.validator_eq
  have hleft' := h'.validator_eq
  rw [hconfig, hused] at hleft'
  exact UInt64.toNat_inj.mp (by omega)

/-- What is left of both pools and every entry are determined by what each node holds. -/
theorem Closed.eq_of_held_eq (h : Closed b) (h' : Closed b') (hconfig : b'.config = b.config)
    (hheld : ∀ node, b'.held node = b.held node) :
    b'.remaining = b.remaining ∧ ∀ node, b'.usage.get? node = b.usage.get? node := by
  have hvalidator : b'.remaining.validator = b.remaining.validator :=
    h.remaining_validator_eq h' hconfig fun node => congrArg PoolBytes.validator (hheld node)
  have hused : b'.atLargeUsed = b.atLargeUsed := by
    rw [atLargeUsed_eq, atLargeUsed_eq]
    exact sum_usage_eq _ rfl fun node => congrArg (·.atLarge.toNat) (hheld node)
  have hatLarge : b'.remaining.atLarge = b.remaining.atLarge := by
    have hleft := h.atLarge_eq
    have hleft' := h'.atLarge_eq
    rw [hconfig, hused] at hleft'
    exact UInt64.toNat_inj.mp (by omega)
  refine ⟨congrArg₂ PoolBytes.mk hvalidator hatLarge, fun node => ?_⟩
  rw [h.get?_usage, h'.get?_usage, hheld]

namespace Proportionate

/-- While each keeps within its share, any nodes hold no more than their joint share. -/
theorem sum_held_le (h : b.Proportionate set) (hm : set.Mirrors m) (nodes : Finset NodeId) :
    ∑ node ∈ nodes, (b.held node).validator.toNat ≤
      b.config.validatorPool.toNat * (∑ node ∈ nodes, (set.weight node).toNat) /
        set.totalWeight.toNat :=
  (Finset.sum_le_sum fun node _ => h node).trans (hm.sum_share_le _ nodes)

theorem held_of_not_contains (h : b.Proportionate set) (hnode : set.contains node = false) :
    (b.held node).validator = 0 := by
  have hshare := h node
  rw [allowance_of_weight_eq_zero (ValidatorSet.weight_of_not_contains hnode)] at hshare
  exact UInt64.toNat_inj.mp (Nat.le_zero.mp hshare)

/-- What is left of the validator pool covers the rest of any one share: the other nodes hold no more
than theirs, and all shares together are no more than the pool. -/
theorem share_le (h : b.Proportionate set) (hm : set.Mirrors m) (hclosed : Closed b)
    (node : NodeId) :
    (allowance b.config.validatorPool (set.stake node)).toNat ≤
      (b.held node).validator.toNat + b.remaining.validator.toNat := by
  let nodes := insert node b.usage.keys.toFinset
  have hmem : node ∈ nodes := Finset.mem_insert_self _ _
  have hused : b.validatorUsed = ∑ n ∈ nodes, (b.held n).validator.toNat := by
    rw [validatorUsed_eq, Table.sum_eq_sum_of_subset _ (Finset.subset_insert node _)]
    simp only [amount_usage_eq, nodes]
  have hothers : ∑ n ∈ nodes.erase node, (b.held n).validator.toNat ≤
      ∑ n ∈ nodes.erase node, (allowance b.config.validatorPool (set.stake n)).toNat :=
    Finset.sum_le_sum fun n _ => h n
  have hpool := hm.sum_share_le_pool b.config.validatorPool nodes
  have hleft := hclosed.validator_eq
  rw [← Finset.add_sum_erase _ _ hmem] at hused hpool
  omega

/-- Only the rest of its share limits what a node may draw on the validator pool. -/
theorem validatorRoom_eq (h : b.Proportionate set) (hm : set.Mirrors m)
    (hclosed : Closed b) (node : NodeId) :
    b.validatorRoom node (set.stake node) =
      Amount.monus (allowance b.config.validatorPool (set.stake node)) (b.held node).validator := by
  have hroom := toNat_validatorRoom b node (set.stake node)
  have hcovered := h.share_le hm hclosed node
  apply UInt64.toNat_inj.mp
  rw [Amount.toNat_monus]
  omega

/-- A request within the share takes all of its bytes from the validator pool. -/
theorem plan_eq (h : b.Proportionate set) (hm : set.Mirrors m) (hclosed : Closed b)
    (hsize : (b.held node).validator.toNat + size.toNat ≤
      (allowance b.config.validatorPool (set.stake node)).toNat) :
    b.plan node size (set.stake node) = .ok ⟨size, 0⟩ := by
  have hmin : Amount.min (b.validatorRoom node (set.stake node)) size = size := by
    apply UInt64.toNat_inj.mp
    rw [h.validatorRoom_eq hm hclosed, Amount.toNat_min, Amount.toNat_monus]
    exact Nat.min_eq_right (by omega)
  simp only [plan, hmin, UInt64.sub_self]
  rw [if_neg (UInt64.not_lt.mpr (UInt64.zero_le))]

end Proportionate

end Budget

/-! ## Runs with the same validators -/

theorem largestShare_le {pool : UInt64} {stakes : List Stake} {share : Nat}
    (h : ∀ stake ∈ stakes, (allowance pool stake).toNat ≤ share) :
    largestShare pool stakes ≤ share := by
  induction stakes with
  | nil => exact Nat.zero_le _
  | cons stake rest ih =>
    have hrest := ih fun s hs => h s (List.mem_cons_of_mem _ hs)
    exact Nat.max_le.mpr ⟨h stake List.mem_cons_self, hrest⟩

namespace Throttler

open Budget (Closed Proportionate)

variable {config : ThrottleConfig} {t : Throttler} {signals : List Signal} {set : ValidatorSet}
  {calls : List (Roster × ScopeCall)} {node : NodeId}

theorem stake_of_mem_grantedStakes {stake : Stake} (h : stake ∈ t.grantedStakes node calls) :
    ∃ c ∈ calls, stake = c.1.set.stake node := by
  induction calls generalizing t with
  | nil => cases h
  | cons c rest ih =>
    have hlater : ∀ {t : Throttler}, stake ∈ t.grantedStakes node rest →
        ∃ d ∈ c :: rest, stake = d.1.set.stake node := by
      intro t hmem
      obtain ⟨d, hd, heq⟩ := ih hmem
      exact ⟨d, List.mem_cons_of_mem _ hd, heq⟩
    rw [grantedStakes] at h
    split at h
    · rcases List.mem_cons.mp h with heq | hmem
      · exact ⟨c, List.mem_cons_self, heq⟩
      · exact hlater hmem
    · exact hlater h

/-- As long as the validators stay the same every node keeps within its share. -/
theorem proportionate_after (hclosed : Closed t.budget) (h : t.budget.Proportionate set)
    (hfixed : ∀ c ∈ calls, c.1.set = set) : (t.after calls).budget.Proportionate set := by
  intro node
  obtain ⟨-, hconfig⟩ := closed_after hclosed calls
  rw [hconfig]
  refine (validator_after_le hclosed node calls).trans (Nat.max_le.mpr ⟨h node, ?_⟩)
  refine largestShare_le fun stake hstake => ?_
  obtain ⟨c, hc, rfl⟩ := stake_of_mem_grantedStakes hstake
  rw [hfixed c hc]

theorem proportionate_after_make (hmake : make config = .ok (t, signals)) (label : String)
    (hfixed : ∀ c ∈ calls, c.1.set = set) :
    ((t.relabel label).1.after calls).budget.Proportionate set := by
  obtain ⟨hfresh, hclosed, -, -⟩ := closed_after_make hmake label calls
  refine proportionate_after hclosed (fun node => ?_) hfixed
  rw [hfresh, held_full]
  exact Nat.zero_le _

/-- **Stake has a floor of service.** After any calls with the same validators, whoever made them and
however they were answered, no node holds more of the validator pool than its share, what is left of
the pool covers the rest of each share, and a request within the rest of the node's share is granted,
wholly out of the validator pool. -/
theorem acquire_within_share (hmake : make config = .ok (t, signals)) (label : String)
    (changes : List StakeChange) (calls : List (Roster × ScopeCall))
    (hfixed : ∀ c ∈ calls, c.1.set = .run .empty changes) (node : NodeId) :
    let set := ValidatorSet.run .empty changes
    let before := (t.relabel label).1.after calls
    let share := (allowance config.validatorPool (set.stake node)).toNat
    let held := (before.budget.held node).validator.toNat
    held ≤ share ∧ share - held ≤ before.budget.remaining.validator.toNat ∧
      ∀ size : UInt64, size.toNat ≤ share - held →
        (before.acquire set node size).result = .ok ⟨size, 0⟩ := by
  intro set before share held
  obtain ⟨-, -, hclosed, hconfig⟩ := closed_after_make hmake label calls
  have hproportionate := proportionate_after_make hmake label hfixed
  have hmirrors := (ValidatorSet.Holds.run changes).mirrors
  have hheld := hproportionate node
  have hleft := hproportionate.share_le hmirrors hclosed node
  rw [hconfig] at hheld hleft
  refine ⟨hheld, Nat.sub_le_iff_le_add'.mpr hleft, fun size hsize => ?_⟩
  have hplan : before.budget.plan node size (set.stake node) = .ok ⟨size, 0⟩ := by
    refine hproportionate.plan_eq hmirrors hclosed ?_
    rw [hconfig]
    exact (Nat.le_sub_iff_add_le' hheld).mp hsize
  unfold acquire
  split
  · next hzero =>
    rw [hzero]
    rfl
  · rw [Budget.acquire, hplan]
    rfl

/-- The validator with less weight. -/
def minorNode : NodeId := .zero

/-- The validator with more. -/
def majorNode : NodeId := ⟨.ofNat 20 1⟩

/-- A node without stake. -/
def strangeNode : NodeId := ⟨.ofNat 20 2⟩

/-- Two validators share the stake one to two. -/
def pairChanges : List StakeChange := [.add minorNode none none 1, .add majorNode none none 2]

/-- The two validators, with nobody listening. -/
def pairRoster : Roster := ⟨.run .empty pairChanges, []⟩

/-- A stranger takes all that it may, the validator with more stake the rest, and both are refused more
than that. -/
def floodCalls : List (Roster × ScopeCall) :=
  [(pairRoster, .acquire strangeNode 4), (pairRoster, .acquire strangeNode 1),
    (pairRoster, .acquire majorNode 8), (pairRoster, .tryAcquire majorNode 1)]

theorem set_of_mem_floodCalls : ∀ c ∈ floodCalls, c.1.set = .run .empty pairChanges := by
  simp [floodCalls, pairRoster]

/-- After the flood the pool for everyone is empty, and the other validator gets all of its share. -/
theorem acquire_within_share_after_flood :
    let before := (scarce.relabel "scope").1.after floodCalls
    make ⟨10, 6, 4⟩ = .ok (scarce, [scarce.pools]) ∧
      (∀ c ∈ floodCalls, c.1.set = .run .empty pairChanges) ∧
      before.budget.remaining = ⟨4, 0⟩ ∧
      (before.acquire (.run .empty pairChanges) minorNode 3).result = .ok ⟨3, 0⟩ := by
  have hmake : make ⟨10, 6, 4⟩ = .ok (scarce, [scarce.pools]) := by decide +kernel
  obtain ⟨-, -, hgranted⟩ := acquire_within_share hmake "scope" pairChanges floodCalls
    set_of_mem_floodCalls minorNode
  exact ⟨hmake, set_of_mem_floodCalls, by decide +kernel, hgranted 3 (by decide +kernel)⟩

/-- **Dividing stake gains nothing.** After any calls with the same validators, all that nodes of any
coalition hold of the validator pool is at most its part in proportion to their combined weight. Nodes
that are no validators hold nothing of it, and no call of theirs changes what is left. -/
theorem coalition_within_share (hmake : make config = .ok (t, signals)) (label : String)
    (changes : List StakeChange) (calls : List (Roster × ScopeCall))
    (hfixed : ∀ c ∈ calls, c.1.set = .run .empty changes) :
    let set := ValidatorSet.run .empty changes
    let before := (t.relabel label).1.after calls
    (∀ coalition : Finset NodeId,
      ∑ node ∈ coalition, (before.budget.held node).validator.toNat ≤
        config.validatorPool.toNat * (∑ node ∈ coalition, (set.weight node).toNat) /
          set.totalWeight.toNat) ∧
    (∀ coalition : Finset NodeId, (∀ node ∈ coalition, set.contains node = false) →
      ∑ node ∈ coalition, (before.budget.held node).validator.toNat = 0) ∧
    ∀ roster call node, roster.set = set → call.node? = some node → set.contains node = false →
      (Scope.call ⟨roster, before⟩ call).scope.throttler.budget.remaining.validator =
        before.budget.remaining.validator := by
  intro set before
  obtain ⟨-, -, hclosed, hconfig⟩ := closed_after_make hmake label calls
  have hproportionate := proportionate_after_make hmake label hfixed
  refine ⟨fun coalition => ?_, fun coalition houtside => ?_, ?_⟩
  · have hsum := hproportionate.sum_held_le (ValidatorSet.Holds.run changes).mirrors coalition
    rwa [hconfig] at hsum
  · refine Finset.sum_eq_zero fun node hnode => ?_
    rw [hproportionate.held_of_not_contains (houtside node hnode)]
    rfl
  · intro roster call node hset hnode houtside
    have hnext : ∀ c ∈ calls ++ [(roster, call)], c.1.set = set := by
      intro c hc
      rcases List.mem_append.mp hc with hc | hc
      · exact hfixed c hc
      · rw [List.mem_singleton.mp hc]
        exact hset
    have hafter := proportionate_after_make hmake label hnext
    obtain ⟨-, -, hclosed', hconfig'⟩ := closed_after_make hmake label (calls ++ [(roster, call)])
    have hstep : (t.relabel label).1.after (calls ++ [(roster, call)]) =
        (Scope.call ⟨roster, before⟩ call).scope.throttler := List.foldl_concat ..
    rw [hstep] at hafter hclosed' hconfig'
    refine hclosed.remaining_validator_eq hclosed' (hconfig'.trans hconfig.symm) fun other => ?_
    by_cases hother : other = node
    · rw [hother, hafter.held_of_not_contains houtside,
        hproportionate.held_of_not_contains houtside]
    · have hne : call.node? ≠ some other := by
        rw [hnode]
        exact fun heq => hother (Option.some.inj heq).symm
      have hheld := Scope.held_call_of_ne (s := ⟨roster, before⟩) hclosed hne
      exact congrArg PoolBytes.validator hheld

/-- The coalition of a stranger with two thirds of the stake has drawn all that it may of ten bytes. -/
theorem coalition_within_share_after_flood :
    let before := (scarce.relabel "scope").1.after floodCalls
    let coalition : Finset NodeId := {majorNode, strangeNode}
    let reply := Scope.call ⟨pairRoster, before⟩ (.release strangeNode 4)
    make ⟨10, 6, 4⟩ = .ok (scarce, [scarce.pools]) ∧
      (∀ c ∈ floodCalls, c.1.set = .run .empty pairChanges) ∧
      ∑ node ∈ coalition, (before.budget.held node).validator.toNat = 6 ∧
      ∑ node ∈ coalition, (before.budget.held node).validator.toNat ≤ 10 * 2 / 3 ∧
      reply.answer = .bytes ⟨0, 4⟩ ∧
      reply.scope.throttler.budget.remaining.validator = before.budget.remaining.validator := by
  have hmake : make ⟨10, 6, 4⟩ = .ok (scarce, [scarce.pools]) := by decide +kernel
  have hweight : ∑ node ∈ ({majorNode, strangeNode} : Finset NodeId),
      (ValidatorSet.weight (.run .empty pairChanges) node).toNat = 2 := by
    decide +kernel
  have htotal : (ValidatorSet.run .empty pairChanges).totalWeight.toNat = 3 := by decide +kernel
  obtain ⟨hshare, -, houtside⟩ := coalition_within_share hmake "scope" pairChanges floodCalls
    set_of_mem_floodCalls
  have hbound := hshare {majorNode, strangeNode}
  rw [hweight, htotal] at hbound
  exact ⟨hmake, set_of_mem_floodCalls, by decide +kernel, hbound, by decide +kernel,
    houtside pairRoster (.release strangeNode 4) strangeNode rfl rfl (by decide +kernel)⟩

end Throttler

end StakeGuard
