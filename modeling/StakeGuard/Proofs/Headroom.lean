import StakeGuard.Proofs.Accounting

/-!
# Headroom

How much a node can be granted at once: the rest of its share of the validator pool and the rest of
its cap on the other pool, each as far as the pool goes (`Budget.headroom`). A request is planned
within the headroom and refused above it (`Budget.plan_of_le`, `Budget.plan_of_lt`), and a refusal
leaves the headroom as it was. Main statement: a refusal names exactly the headroom, and a request for
what it names is granted (`Budget.acquire_iff_le_headroom`).
-/

namespace StakeGuard.Budget

variable {b : Budget} {node : NodeId} {size : UInt64} {stake : Stake}

/-- The rest of a node's share of the validator pool, as far as the pool goes; nothing without
weight. -/
def shareLeft (b : Budget) (node : NodeId) (stake : Stake) : Nat :=
  if stake.weight = 0 then 0
  else
    min ((allowance b.config.validatorPool stake).toNat - (b.held node).validator.toNat)
      b.remaining.validator.toNat

/-- The rest of what a node may hold of the pool for everyone, as far as the pool goes. -/
def capLeft (b : Budget) (node : NodeId) : Nat :=
  min (b.config.nodeCap.toNat - (b.held node).atLarge.toNat) b.remaining.atLarge.toNat

/-- The most that a node can be granted at once. -/
def headroom (b : Budget) (node : NodeId) (stake : Stake) : Nat :=
  b.shareLeft node stake + b.capLeft node

theorem validatorRoom_eq_shareLeft (b : Budget) (node : NodeId) (stake : Stake) :
    (b.validatorRoom node stake).toNat = b.shareLeft node stake := by
  rw [toNat_validatorRoom, shareLeft]
  split
  · next hweight =>
    rw [allowance_of_weight_eq_zero hweight]
    exact Nat.eq_zero_of_le_zero ((Nat.min_le_left _ _).trans (Nat.sub_le _ _))
  · rfl

/-- What a plan takes from the validator pool, and what is then missing. -/
theorem toNat_min_validatorRoom (b : Budget) (node : NodeId) (size : UInt64) (stake : Stake) :
    (Amount.min (b.validatorRoom node stake) size).toNat = min size.toNat (b.shareLeft node stake) ∧
      (size - Amount.min (b.validatorRoom node stake) size).toNat =
        size.toNat - min size.toNat (b.shareLeft node stake) := by
  have hmin : (Amount.min (b.validatorRoom node stake) size).toNat =
      min size.toNat (b.shareLeft node stake) := by
    rw [Amount.toNat_min, validatorRoom_eq_shareLeft]
    exact Nat.min_comm _ _
  refine ⟨hmin, ?_⟩
  rw [Amount.toNat_sub_of_le (Amount.toNat_min_le_right _ _), hmin]

/-- Within the headroom a plan takes what it can from the validator pool first. -/
theorem plan_of_le (h : size.toNat ≤ b.headroom node stake) :
    ∃ grant, b.plan node size stake = .ok grant ∧
      grant.validator.toNat = min size.toNat (b.shareLeft node stake) ∧
      grant.atLarge.toNat = size.toNat - min size.toNat (b.shareLeft node stake) := by
  obtain ⟨hvalidator, hrest⟩ := toNat_min_validatorRoom b node size stake
  have hroom := toNat_atLargeRoom b node
  have hcovered : ¬b.atLargeRoom node < size - Amount.min (b.validatorRoom node stake) size := by
    rw [UInt64.lt_iff_toNat_lt, hrest, hroom]
    rw [headroom, capLeft] at h
    omega
  simp only [plan, if_neg hcovered]
  exact ⟨_, rfl, hvalidator, hrest⟩

/-- Above the headroom no plan is made. The share is used up then, so the size of the request does not
show in what is named as available; and as that is less than the request, it is a word. -/
theorem plan_of_lt (h : b.headroom node stake < size.toNat) :
    ∃ available, b.plan node size stake = .error (.exhausted node size available) ∧
      available.toNat = b.headroom node stake := by
  obtain ⟨hvalidator, hrest⟩ := toNat_min_validatorRoom b node size stake
  have hroom : (b.atLargeRoom node).toNat = b.capLeft node := toNat_atLargeRoom b node
  have hsize := Amount.toNat_lt_bound size
  have hshort : b.atLargeRoom node < size - Amount.min (b.validatorRoom node stake) size := by
    rw [UInt64.lt_iff_toNat_lt, hrest, hroom]
    rw [headroom] at h
    omega
  simp only [plan, if_pos hshort]
  refine ⟨_, rfl, ?_⟩
  rw [headroom] at h ⊢
  rw [Amount.toNat_add_of_lt (by omega), hvalidator, hroom]
  omega

/-- A refusal is noted, but takes nothing. -/
theorem headroom_markRefused (b : Budget) (node other : NodeId) (stake : Stake) :
    (b.markRefused node).shareLeft other stake = b.shareLeft other stake ∧
      (b.markRefused node).headroom other stake = b.headroom other stake := by
  rw [markRefused]
  split <;> exact ⟨rfl, rfl⟩

theorem acquire_of_plan_eq_ok {grant : PoolBytes} (h : b.plan node size stake = .ok grant) :
    b.acquire node size stake = (.ok grant, b.commit node grant) := by
  rw [acquire, h]

theorem acquire_of_plan_eq_error {e : ThrottleError} (h : b.plan node size stake = .error e) :
    b.acquire node size stake = (.error e, b.markRefused node) := by
  rw [acquire, h]

/-- **A refusal says exactly what can be had.** In every state of a budget and for every node with any
stake, all requests up to the headroom are granted and no other. A grant takes what it can from the
validator pool and the rest from the other. A refusal names what was asked for and the headroom, and a
request for that much, made next, is granted whole. -/
theorem acquire_iff_le_headroom (b : Budget) (node : NodeId) (stake : Stake) (size : UInt64) :
    let reply := b.acquire node size stake
    ((∃ grant, reply.1 = .ok grant) ↔ size.toNat ≤ b.headroom node stake) ∧
    (∀ grant, reply.1 = .ok grant →
      grant.validator.toNat = min size.toNat (b.shareLeft node stake) ∧
      grant.atLarge.toNat = size.toNat - min size.toNat (b.shareLeft node stake)) ∧
    ∀ e, reply.1 = .error e →
      ∃ available, e = .exhausted node size available ∧
        available.toNat = b.headroom node stake ∧ available < size ∧
        ∃ grant, (reply.2.acquire node available stake).1 = .ok grant ∧
          grant.validator.toNat = b.shareLeft node stake ∧
          grant.atLarge.toNat = b.capLeft node := by
  intro reply
  rcases Nat.lt_or_ge (b.headroom node stake) size.toNat with hlt | hle
  · obtain ⟨available, hplan, havailable⟩ := plan_of_lt hlt
    have hreply : reply = _ := acquire_of_plan_eq_error hplan
    obtain ⟨hshare, hsame⟩ := headroom_markRefused b node node stake
    obtain ⟨grant, hagain, hvalidator, hatLarge⟩ :=
      plan_of_le (b := b.markRefused node) (Nat.le_of_eq (havailable.trans hsame.symm))
    rw [hshare, havailable, headroom] at hvalidator hatLarge
    rw [hreply]
    refine ⟨⟨nofun, fun hle => absurd hle (Nat.not_le_of_lt hlt)⟩, nofun, ?_⟩
    rintro e ⟨⟩
    refine ⟨available, rfl, havailable, UInt64.lt_iff_toNat_lt.mpr (havailable ▸ hlt), grant, ?_⟩
    rw [acquire_of_plan_eq_ok hagain]
    exact ⟨rfl, by omega, by omega⟩
  · obtain ⟨grant, hplan, hsplit⟩ := plan_of_le hle
    have hreply : reply = _ := acquire_of_plan_eq_ok hplan
    rw [hreply]
    refine ⟨⟨fun _ => hle, fun _ => ⟨grant, rfl⟩⟩, ?_, nofun⟩
    rintro _ ⟨⟩
    exact hsplit

/-- A node that holds two of ten bytes for validators asks for the rest of a share of five and for all
that it may hold of the other pool, and for one byte more. -/
example :
    let b := ((Budget.full ⟨10, 6, 4⟩).acquire .zero 2 ⟨1, 2⟩).2
    b.headroom .zero ⟨1, 2⟩ = 7 ∧ (b.acquire .zero 7 ⟨1, 2⟩).1 = .ok ⟨3, 4⟩ ∧
      (b.acquire .zero 8 ⟨1, 2⟩).1 = .error (.exhausted .zero 8 7) := by
  decide +kernel

end StakeGuard.Budget
