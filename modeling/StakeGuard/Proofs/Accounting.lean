import StakeGuard.Proofs.TableSum
import StakeGuard.Throttle.Budget

/-!
# Closed accounting

What is left of each pool and what the nodes hold of it add up to the pool, no node has an entry
without bytes, and whoever is noted as refused holds something (`Budget.Closed`). Drawing and giving
back move bytes between the pools and one node and touch nothing of another (`Budget.Drawn`,
`Budget.AlikeBut`). Main statements: both keep the accounts closed (`Closed.commit`,
`Closed.release`).
-/

namespace StakeGuard

namespace PoolBytes

/-- All bytes as an exact number, where `total` is a word. -/
def count (b : PoolBytes) : Nat := b.validator.toNat + b.atLarge.toNat

theorem eq_none_iff {b : PoolBytes} : b = none ↔ b.count = 0 := by
  obtain ⟨validator, atLarge⟩ := b
  have hzero : (0 : UInt64).toNat = 0 := rfl
  simp only [none, mk.injEq, count, ← UInt64.toNat_inj, hzero]
  omega

theorem toNat_total {b : PoolBytes} (h : b.count < Amount.bound) : b.total.toNat = b.count :=
  Amount.toNat_add_of_lt h

variable {a b c : PoolBytes}

/-- Amounts are a sum where they are one as numbers, pool by pool; nothing wraps around there. -/
theorem eq_plus (hvalidator : c.validator.toNat = a.validator.toNat + b.validator.toNat)
    (hatLarge : c.atLarge.toNat = a.atLarge.toNat + b.atLarge.toNat) : c = a.plus b := by
  have hvalidatorSum := Amount.toNat_add_of_lt (hvalidator ▸ Amount.toNat_lt_bound c.validator)
  have hatLargeSum := Amount.toNat_add_of_lt (hatLarge ▸ Amount.toNat_lt_bound c.atLarge)
  have hfirst : c.validator = a.validator + b.validator :=
    UInt64.toNat_inj.mp (hvalidator.trans hvalidatorSum.symm)
  have hsecond : c.atLarge = a.atLarge + b.atLarge :=
    UInt64.toNat_inj.mp (hatLarge.trans hatLargeSum.symm)
  rw [plus, ← hfirst, ← hsecond]

theorem eq_minus (hvalidator : a.validator.toNat = c.validator.toNat + b.validator.toNat)
    (hatLarge : a.atLarge.toNat = c.atLarge.toNat + b.atLarge.toNat) : c = a.minus b := by
  rw [eq_plus hvalidator hatLarge, plus, minus, UInt64.add_sub_cancel, UInt64.add_sub_cancel]

end PoolBytes

namespace Budget

variable {b b' : Budget} {node other : NodeId} {bytes grant remaining left : PoolBytes}

/-! ## Accounts -/

/-- The books of both pools balance, and nobody is listed without bytes. -/
structure Closed (b : Budget) : Prop where
  validator_eq : b.remaining.validator.toNat + b.validatorUsed = b.config.validatorPool.toNat
  atLarge_eq : b.remaining.atLarge.toNat + b.atLargeUsed = b.config.atLargePool.toNat
  ne_none : ∀ {node bytes}, b.usage.get? node = some bytes → bytes ≠ .none
  holds_of_refused : ∀ {node}, b.refused.contains node → b.usage.contains node
  pools_lt : b.config.validatorPool.toNat + b.config.atLargePool.toNat < Amount.bound

/-- After `b` the node has drawn the bytes. -/
structure Drawn (b b' : Budget) (node : NodeId) (bytes : PoolBytes) : Prop where
  validator_left :
    b'.remaining.validator.toNat + bytes.validator.toNat = b.remaining.validator.toNat
  atLarge_left : b'.remaining.atLarge.toNat + bytes.atLarge.toNat = b.remaining.atLarge.toNat
  validator_held :
    (b'.held node).validator.toNat = (b.held node).validator.toNat + bytes.validator.toNat
  atLarge_held : (b'.held node).atLarge.toNat = (b.held node).atLarge.toNat + bytes.atLarge.toNat

/-- Two budgets are of the same pools and say the same of every node but one. -/
structure AlikeBut (b b' : Budget) (node : NodeId) : Prop where
  config_eq : b'.config = b.config
  usage_eq : ∀ other ≠ node, b'.usage.get? other = b.usage.get? other
  admission_eq : ∀ other ≠ node, b'.admission other = b.admission other

theorem AlikeBut.refl (b : Budget) (node : NodeId) : AlikeBut b b node :=
  ⟨rfl, fun _ _ => rfl, fun _ _ => rfl⟩

theorem held_congr (h : b'.usage.get? node = b.usage.get? node) : b'.held node = b.held node :=
  congrArg (·.getD .none) h

theorem AlikeBut.held_eq (h : AlikeBut b b' node) (hne : other ≠ node) :
    b'.held other = b.held other := held_congr (h.usage_eq other hne)

theorem Drawn.held_eq_plus (h : Drawn b b' node grant) :
    b'.held node = (b.held node).plus grant := PoolBytes.eq_plus h.validator_held h.atLarge_held

theorem Drawn.held_eq_minus (h : Drawn b b' node grant) :
    b.held node = (b'.held node).minus grant := PoolBytes.eq_minus h.validator_held h.atLarge_held

theorem validatorUsed_eq (b : Budget) : b.validatorUsed = b.usage.sum (·.validator.toNat) :=
  Amount.sum_eq_list_sum _

theorem atLargeUsed_eq (b : Budget) : b.atLargeUsed = b.usage.sum (·.atLarge.toNat) :=
  Amount.sum_eq_list_sum _

theorem held_le_sum (f : PoolBytes → Nat) (hnone : f .none = 0) (b : Budget) (node : NodeId) :
    f (b.held node) ≤ b.usage.sum f := by
  rw [held]
  cases h : b.usage.get? node with
  | none => simp [hnone]
  | some bytes => exact Table.le_sum f h

namespace Closed

/-- A new budget is closed, because its pools add up to a word. -/
theorem full {config : ThrottleConfig} (h : config.validate = .ok ()) : Closed (.full config) where
  validator_eq := Nat.add_zero _
  atLarge_eq := Nat.add_zero _
  ne_none h := by rw [Budget.full, Table.get?_empty] at h; cases h
  holds_of_refused h := by cases h
  pools_lt := by
    rw [ThrottleConfig.validate] at h
    split at h
    · cases h
    · split at h
      · cases h
      · next sum hsum =>
        rw [Budget.full, ← Amount.add?_eq_some_iff.mp hsum]
        exact Amount.toNat_lt_bound sum

theorem validator_add_le (h : Closed b) (node : NodeId) :
    (b.held node).validator.toNat + b.remaining.validator.toNat ≤ b.config.validatorPool.toNat := by
  have hheld := held_le_sum (·.validator.toNat) rfl b node
  rw [← validatorUsed_eq] at hheld
  have heq := h.validator_eq
  omega

theorem atLarge_add_le (h : Closed b) (node : NodeId) :
    (b.held node).atLarge.toNat + b.remaining.atLarge.toNat ≤ b.config.atLargePool.toNat := by
  have hheld := held_le_sum (·.atLarge.toNat) rfl b node
  rw [← atLargeUsed_eq] at hheld
  have heq := h.atLarge_eq
  omega

/-- What a node holds of both pools fits a word, since it is no more than the pools. -/
theorem held_count_lt (h : Closed b) (node : NodeId) : (b.held node).count < Amount.bound := by
  have hvalidator := h.validator_add_le node
  have hatLarge := h.atLarge_add_le node
  have hpools := h.pools_lt
  rw [PoolBytes.count]
  omega

/-- An entry in the table of holdings says what the node holds, and there is one for each node that
holds anything. -/
theorem get?_usage (h : Closed b) (node : NodeId) :
    b.usage.get? node = if b.held node = .none then none else some (b.held node) := by
  rw [held]
  cases hget : b.usage.get? node with
  | none => rfl
  | some bytes => exact (if_neg (h.ne_none hget)).symm

/-- Where nobody holds anything both pools are full. -/
theorem remaining_eq_of_idle (h : Closed b) (hidle : ∀ node, b.held node = .none) :
    b.remaining = ⟨b.config.validatorPool, b.config.atLargePool⟩ := by
  have hempty : b.usage.entries = [] := by
    refine List.eq_nil_iff_forall_not_mem.mpr fun e he => ?_
    have hget := Table.mem_entries_iff.mp he
    have hheld := hidle e.1
    rw [held, hget] at hheld
    exact h.ne_none hget hheld
  have hvalidator := h.validator_eq
  have hatLarge := h.atLarge_eq
  rw [validatorUsed_eq, Table.sum, hempty] at hvalidator
  rw [atLargeUsed_eq, Table.sum, hempty] at hatLarge
  rw [← UInt64.toNat_inj.mp hvalidator, ← UInt64.toNat_inj.mp hatLarge]

end Closed

/-! ## Moving bytes between the pools and a node -/

theorem sum_settle (f : PoolBytes → Nat) (hnone : f .none = 0) (b : Budget) (node : NodeId)
    (left : PoolBytes) :
    (settle b.usage node left).sum f + f (b.held node) = b.usage.sum f + f left := by
  have hsettle : (settle b.usage node left).sum f = f left + (b.usage.erase node).sum f := by
    rw [settle]
    split
    · next hleft => rw [hleft, hnone, Nat.zero_add]
    · exact Table.sum_insert f _ _ _
  have hheld : f (b.held node) + (b.usage.erase node).sum f = b.usage.sum f := by
    rw [held]
    cases h : b.usage.get? node with
    | none => rw [Option.getD_none, hnone, Nat.zero_add, Table.sum_erase_of_none f h]
    | some bytes => exact Table.add_sum_erase f h
  omega

theorem get?_settle (usage : Table NodeId PoolBytes) (node other : NodeId) (left : PoolBytes) :
    (settle usage node left).get? other =
      if other = node then if left = .none then none else some left else usage.get? other := by
  rw [settle]
  split
  · rw [Table.get?_erase]
  · rw [Table.get?_insert]

/-- The budget with other amounts left in the pools and with a node. -/
def exchange (b : Budget) (node : NodeId) (remaining left : PoolBytes) : Budget :=
  { b with remaining, usage := settle b.usage node left, refused := b.refused.erase node }

theorem held_exchange : (b.exchange node remaining left).held node = left := by
  rw [held, exchange, get?_settle, if_pos rfl]
  split
  · next h => rw [h, Option.getD_none]
  · rfl

theorem alikeBut_exchange : AlikeBut b (b.exchange node remaining left) node := by
  have husage : ∀ other ≠ node,
      (b.exchange node remaining left).usage.get? other = b.usage.get? other := by
    intro other hne
    rw [exchange, get?_settle, if_neg hne]
  refine ⟨rfl, husage, fun other hne => ?_⟩
  have hrefused : (b.exchange node remaining left).refused.contains other =
      b.refused.contains other := by
    rw [Table.contains, Table.contains, exchange, Table.get?_erase, if_neg hne]
  have hholds : (b.exchange node remaining left).usage.contains other = b.usage.contains other :=
    congrArg Option.isSome (husage other hne)
  rw [admission, admission, hrefused, hholds]

/-- The accounts stay closed when bytes move between the pools and one node, as long as each pool's
bytes add up as before. -/
theorem Closed.exchange (h : Closed b)
    (hvalidator : remaining.validator.toNat + left.validator.toNat =
      b.remaining.validator.toNat + (b.held node).validator.toNat)
    (hatLarge : remaining.atLarge.toNat + left.atLarge.toNat =
      b.remaining.atLarge.toNat + (b.held node).atLarge.toNat) :
    Closed (b.exchange node remaining left) where
  validator_eq := by
    have hsum := sum_settle (·.validator.toNat) rfl b node left
    have hold := h.validator_eq
    rw [validatorUsed_eq] at hold ⊢
    simp only [Budget.exchange]
    omega
  atLarge_eq := by
    have hsum := sum_settle (·.atLarge.toNat) rfl b node left
    have hold := h.atLarge_eq
    rw [atLargeUsed_eq] at hold ⊢
    simp only [Budget.exchange]
    omega
  ne_none {other bytes} hget := by
    rw [Budget.exchange, get?_settle] at hget
    split at hget
    · split at hget
      · cases hget
      · next hleft => cases hget; exact hleft
    · exact h.ne_none hget
  holds_of_refused {other} hrefused := by
    simp only [Budget.exchange, Table.contains, Table.get?_erase] at hrefused
    split at hrefused
    · cases hrefused
    · next hne =>
      have hholds := h.holds_of_refused hrefused
      rwa [Table.contains, Budget.exchange, get?_settle, if_neg hne]
  pools_lt := h.pools_lt

/-! ## Plans, grants and returns -/

/-- The bytes are in the pools. -/
def Fits (b : Budget) (grant : PoolBytes) : Prop :=
  grant.validator.toNat ≤ b.remaining.validator.toNat ∧
    grant.atLarge.toNat ≤ b.remaining.atLarge.toNat

theorem allowance_of_weight_eq_zero {pool : UInt64} {stake : Stake} (h : stake.weight = 0) :
    allowance pool stake = 0 := by
  unfold allowance
  rw [if_pos (.inl h)]

theorem toNat_validatorRoom (b : Budget) (node : NodeId) (stake : Stake) :
    (b.validatorRoom node stake).toNat =
      min ((allowance b.config.validatorPool stake).toNat - (b.held node).validator.toNat)
        b.remaining.validator.toNat := by
  unfold validatorRoom
  split
  · next hweight =>
    have hzero : (0 : UInt64).toNat = 0 := rfl
    rw [allowance_of_weight_eq_zero hweight, hzero, Nat.zero_sub, Nat.zero_min]
  · rw [Amount.toNat_min, Amount.toNat_monus]

theorem toNat_atLargeRoom (b : Budget) (node : NodeId) :
    (b.atLargeRoom node).toNat =
      min (b.config.nodeCap.toNat - (b.held node).atLarge.toNat) b.remaining.atLarge.toNat := by
  unfold atLargeRoom
  rw [Amount.toNat_min, Amount.toNat_monus]

/-- A plan that succeeds is for all that was asked and fits the pools. -/
theorem fits_of_plan {size : UInt64} {stake : Stake} (h : b.plan node size stake = .ok grant) :
    grant.count = size.toNat ∧ b.Fits grant := by
  simp only [plan] at h
  split at h
  · cases h
  · next hroom =>
    cases h
    have hvalidator := toNat_validatorRoom b node stake
    have hatLarge := toNat_atLargeRoom b node
    have hmin := Amount.toNat_min_le_left (b.validatorRoom node stake) size
    have hsize := Amount.toNat_min_le_right (b.validatorRoom node stake) size
    have hsub := Amount.toNat_sub_of_le hsize
    rw [UInt64.not_lt, UInt64.le_iff_toNat_le, hsub] at hroom
    simp only [PoolBytes.count, Fits, hsub]
    omega

theorem drawn_none : Drawn b b node .none := ⟨rfl, rfl, rfl, rfl⟩

theorem commit_eq_exchange (htotal : grant.total ≠ 0)
    (hheld : ((b.held node).plus grant) ≠ .none) :
    b.commit node grant =
      b.exchange node (b.remaining.minus grant) ((b.held node).plus grant) := by
  rw [commit, if_neg htotal, exchange, settle, if_neg hheld]

namespace Closed

/-- Bytes that fit the pools can be handed out: the accounts stay closed, the node has drawn them, and
no other node is touched. -/
theorem commit (h : Closed b) (hcount : grant.count < Amount.bound) (hfits : b.Fits grant) :
    Closed (b.commit node grant) ∧ Drawn b (b.commit node grant) node grant ∧
      AlikeBut b (b.commit node grant) node := by
  have htotal := PoolBytes.toNat_total hcount
  by_cases hzero : grant.total = 0
  · have hnone : grant = .none := by
      rw [PoolBytes.eq_none_iff, ← htotal, hzero]
      rfl
    rw [Budget.commit, if_pos hzero, hnone]
    exact ⟨h, drawn_none, .refl b node⟩
  · have hpools := h.pools_lt
    have hvalidator := h.validator_add_le node
    have hatLarge := h.atLarge_add_le node
    obtain ⟨hfitsValidator, hfitsAtLarge⟩ := hfits
    have hleftValidator := Amount.toNat_sub_of_le hfitsValidator
    have hleftAtLarge := Amount.toNat_sub_of_le hfitsAtLarge
    have hheldValidator : ((b.held node).validator + grant.validator).toNat =
        (b.held node).validator.toNat + grant.validator.toNat :=
      Amount.toNat_add_of_lt (by omega)
    have hheldAtLarge : ((b.held node).atLarge + grant.atLarge).toNat =
        (b.held node).atLarge.toNat + grant.atLarge.toNat :=
      Amount.toNat_add_of_lt (by omega)
    have hheld : (b.held node).plus grant ≠ .none := by
      intro hnone
      rw [PoolBytes.eq_none_iff, PoolBytes.count, PoolBytes.plus, hheldValidator,
        hheldAtLarge] at hnone
      have hcountZero : grant.count = 0 := by
        rw [PoolBytes.count]
        omega
      rw [hcountZero] at htotal
      exact hzero (UInt64.toNat_inj.mp htotal)
    rw [commit_eq_exchange hzero hheld]
    refine ⟨h.exchange ?_ ?_, ⟨?_, ?_, ?_, ?_⟩, alikeBut_exchange⟩
    · rw [PoolBytes.minus, PoolBytes.plus, hleftValidator, hheldValidator]
      omega
    · rw [PoolBytes.minus, PoolBytes.plus, hleftAtLarge, hheldAtLarge]
      omega
    · rw [Budget.exchange, PoolBytes.minus, hleftValidator]
      omega
    · rw [Budget.exchange, PoolBytes.minus, hleftAtLarge]
      omega
    · rw [held_exchange, PoolBytes.plus, hheldValidator]
    · rw [held_exchange, PoolBytes.plus, hheldAtLarge]

/-- Noting a refusal moves no bytes. -/
theorem markRefused (h : Closed b) (node : NodeId) :
    Closed (b.markRefused node) ∧ (b.markRefused node).remaining = b.remaining ∧
      (b.markRefused node).usage = b.usage ∧ AlikeBut b (b.markRefused node) node := by
  rw [Budget.markRefused]
  split
  · next hholds =>
    refine ⟨⟨h.validator_eq, h.atLarge_eq, h.ne_none, ?_, h.pools_lt⟩, rfl, rfl,
      rfl, fun _ _ => rfl, ?_⟩
    · intro other hrefused
      simp only [Table.contains, Table.get?_insert] at hrefused
      split at hrefused
      · next heq => rw [heq]; exact hholds
      · exact h.holds_of_refused hrefused
    · intro other hne
      have hrefused : (b.refused.insert node ()).contains other = b.refused.contains other := by
        rw [Table.contains, Table.contains, Table.get?_insert, if_neg hne]
      rw [admission, admission, hrefused]
  · exact ⟨h, rfl, rfl, .refl b node⟩

/-- What a node holds can be given back, to the pool for everyone first. -/
theorem release (h : Closed b) {size : UInt64} (hsize : size.toNat ≤ (b.held node).count) :
    ∃ returned b', b.release node size = (.ok returned, b') ∧ returned.count = size.toNat ∧
      returned.atLarge.toNat = min size.toNat (b.held node).atLarge.toNat ∧
      Closed b' ∧ Drawn b' b node returned ∧ AlikeBut b b' node := by
  rw [Budget.release]
  split
  · next hzero =>
    refine ⟨.none, b, rfl, ?_, ?_, h, drawn_none, .refl b node⟩
    · rw [hzero]
      rfl
    · rw [hzero]
      exact (Nat.zero_min _).symm
  · have hpools := h.pools_lt
    have hvalidator := h.validator_add_le node
    have hatLarge := h.atLarge_add_le node
    have htotal := PoolBytes.toNat_total (h.held_count_lt node)
    have hover : ¬(b.held node).total < size := by
      rw [UInt64.lt_iff_toNat_lt, htotal]
      omega
    rw [PoolBytes.count] at hsize
    simp only [if_neg hover]
    -- from here on only the amounts that go back to each pool matter
    generalize hreturned : PoolBytes.mk (size - Amount.min size (b.held node).atLarge)
      (Amount.min size (b.held node).atLarge) = returned
    have hfirst : returned.atLarge.toNat = min size.toNat (b.held node).atLarge.toNat := by
      rw [← hreturned]
      exact Amount.toNat_min _ _
    have hrest : returned.validator.toNat = size.toNat - returned.atLarge.toNat := by
      rw [← hreturned]
      exact Amount.toNat_sub_of_le (Amount.toNat_min_le_left _ _)
    have hkeptValidator : ((b.held node).validator - returned.validator).toNat =
        (b.held node).validator.toNat - returned.validator.toNat :=
      Amount.toNat_sub_of_le (by omega)
    have hkeptAtLarge : ((b.held node).atLarge - returned.atLarge).toNat =
        (b.held node).atLarge.toNat - returned.atLarge.toNat :=
      Amount.toNat_sub_of_le (by omega)
    have hleftValidator : (b.remaining.validator + returned.validator).toNat =
        b.remaining.validator.toNat + returned.validator.toNat :=
      Amount.toNat_add_of_lt (by omega)
    have hleftAtLarge : (b.remaining.atLarge + returned.atLarge).toNat =
        b.remaining.atLarge.toNat + returned.atLarge.toNat :=
      Amount.toNat_add_of_lt (by omega)
    refine ⟨returned, b.exchange node (b.remaining.plus returned) ((b.held node).minus returned),
      rfl, ?_, hfirst, h.exchange ?_ ?_, ⟨?_, ?_, ?_, ?_⟩, alikeBut_exchange⟩
    · rw [PoolBytes.count]
      omega
    · rw [PoolBytes.plus, PoolBytes.minus, hleftValidator, hkeptValidator]
      omega
    · rw [PoolBytes.plus, PoolBytes.minus, hleftAtLarge, hkeptAtLarge]
      omega
    · rw [Budget.exchange, PoolBytes.plus, hleftValidator]
    · rw [Budget.exchange, PoolBytes.plus, hleftAtLarge]
    · rw [held_exchange, PoolBytes.minus, hkeptValidator]
      omega
    · rw [held_exchange, PoolBytes.minus, hkeptAtLarge]
      omega

/-- More than a node holds cannot be given back, and nothing changes. -/
theorem release_of_lt (h : Closed b) {size : UInt64} (hsize : (b.held node).count < size.toNat) :
    b.release node size = (.error (.overRelease node size (b.held node).total), b) := by
  have hzero : size ≠ 0 := by
    rintro rfl
    exact Nat.not_lt_zero _ hsize
  have hlt : (b.held node).total < size := by
    rw [UInt64.lt_iff_toNat_lt, PoolBytes.toNat_total (h.held_count_lt node)]
    exact hsize
  simp only [Budget.release, if_neg hzero, if_pos hlt]

end Closed

end Budget

end StakeGuard
