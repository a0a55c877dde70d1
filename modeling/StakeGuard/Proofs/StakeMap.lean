import StakeGuard.Proofs.Outcome
import StakeGuard.Proofs.TableSum
import StakeGuard.ValidatorSet

/-!
# Stake maps

What a validator set means, with nothing said of slots: a finite map from nodes to their keys,
transactions and weights. Requests are answered with exact numbers, and the total is the sum over the
map. Main statement: the weights stay positive and their sum a word, whatever is requested
(`StakeMap.run_wellFormed`).
-/

namespace StakeGuard

/-- What is stored of a validator besides its name. -/
structure Member where
  key : Option PublicKey
  tx : Option TxId
  weight : UInt64
deriving DecidableEq

/-- The validator that a member is under its name. -/
def Member.validator (node : NodeId) (member : Member) : Validator :=
  ⟨node, member.key, member.weight⟩

/-- The members by node. -/
abbrev StakeMap := Table NodeId Member

namespace StakeMap

/-- The weight of all members, as an exact number. -/
def total (m : StakeMap) : Nat := Amount.sum (m.entries.map (·.2.weight.toNat))

/-- The map with another weight of a member, if the total is still a word with it. -/
def reweigh (m : StakeMap) (node : NodeId) (member : Member) (weight : UInt64) :
    Except ValidatorError StakeMap :=
  let others := total (m.erase node)
  if others + weight.toNat < Amount.bound then .ok (m.insert node { member with weight })
  else .error (.weightOverflow (.ofNat others) weight)

/-- Adds a member, unless it has no weight, is there already or weighs too much, in this order. -/
def add (m : StakeMap) (node : NodeId) (member : Member) : Except ValidatorError StakeMap :=
  if member.weight = 0 then .error (.zeroWeight node)
  else if m.contains node then .error (.duplicateIdentity node)
  else if m.total + member.weight.toNat < Amount.bound then .ok (m.insert node member)
  else .error (.weightOverflow (.ofNat m.total) member.weight)

/-- Gives a member another weight; one that is not there is refused before a weight of zero. -/
def setWeight (m : StakeMap) (node : NodeId) (weight : UInt64) : Except ValidatorError StakeMap :=
  match m.get? node with
  | none => .error (.unknownIdentity node)
  | some member => if weight = 0 then .error (.zeroWeight node) else m.reweigh node member weight

/-- Raises the weight of a member. Its own sum is looked at before the total. -/
def addWeight (m : StakeMap) (node : NodeId) (delta : UInt64) : Except ValidatorError StakeMap :=
  match m.get? node with
  | none => .error (.unknownIdentity node)
  | some member =>
    if delta = 0 then .ok m
    else if Amount.bound ≤ member.weight.toNat + delta.toNat then
      .error (.weightOverflow member.weight delta)
    else if Amount.bound ≤ m.total + delta.toNat then
      .error (.weightOverflow (.ofNat m.total) delta)
    else .ok (m.insert node { member with weight := member.weight + delta })

/-- The map with less weight at a node, and without the node where nothing is left. -/
def removeWeight (m : StakeMap) (node : NodeId) (delta : UInt64) :
    Except ValidatorError StakeMap :=
  match m.get? node with
  | none => .error (.unknownIdentity node)
  | some member =>
    if delta = 0 then .ok m
    else if member.weight.toNat < delta.toNat then
      .error (.insufficientStake node member.weight delta)
    else if member.weight = delta then .ok (m.erase node)
    else .ok (m.insert node { member with weight := member.weight - delta })

/-- The map without a node, and the validator that the node was. -/
def remove (m : StakeMap) (node : NodeId) : Except ValidatorError (StakeMap × Validator) :=
  match m.get? node with
  | none => .error (.unknownIdentity node)
  | some member => .ok (m.erase node, member.validator node)

/-- Carries out a request; the answer shows the validator that was asked to be removed. -/
def apply (m : StakeMap) : StakeChange → Except ValidatorError (StakeMap × Option Validator)
  | .add node key tx weight => (m.add node ⟨key, tx, weight⟩).map (·, none)
  | .remove node => (m.remove node).map fun (m, v) => (m, some v)
  | .setWeight node weight => (m.setWeight node weight).map (·, none)
  | .addWeight node delta => (m.addWeight node delta).map (·, none)
  | .removeWeight node delta => (m.removeWeight node delta).map (·, none)

/-- The map after a request, unchanged where the request is refused. -/
def step (m : StakeMap) (change : StakeChange) : StakeMap :=
  match m.apply change with
  | .error _ => m
  | .ok (m, _) => m

/-- The map that a list of requests makes of the empty one. -/
def run (changes : List StakeChange) : StakeMap := changes.foldl step .empty

/-! ## What a request that is granted does -/

section Granted

variable {m m' : StakeMap} {node : NodeId}

theorem add_eq_ok {member : Member} (h : m.add node member = .ok m') :
    m.get? node = none ∧ m' = m.insert node member := by
  unfold add at h
  split at h
  · cases h
  split at h
  · cases h
  next hnew =>
    split at h
    · cases h
      exact ⟨Table.contains_eq_false_iff.mp (Bool.eq_false_iff.mpr hnew), rfl⟩
    · cases h

theorem remove_eq_ok {v : Validator} (h : m.remove node = .ok (m', v)) :
    ∃ member, m.get? node = some member ∧ m' = m.erase node := by
  unfold remove at h
  split at h
  · cases h
  · next member hm =>
    cases h
    exact ⟨member, hm, rfl⟩

theorem setWeight_eq_ok {weight : UInt64} (h : m.setWeight node weight = .ok m') :
    ∃ member, m.get? node = some member ∧ m' = m.insert node { member with weight } := by
  simp only [setWeight, reweigh] at h
  split at h
  · cases h
  · next member hm =>
    repeat' split at h
    all_goals cases h
    exact ⟨member, hm, rfl⟩

theorem addWeight_eq_ok {delta : UInt64} (h : m.addWeight node delta = .ok m') :
    ∃ member, m.get? node = some member ∧
      m' = if delta = 0 then m else m.insert node { member with weight := member.weight + delta } := by
  unfold addWeight at h
  split at h
  · cases h
  · next member hm =>
    refine ⟨member, hm, ?_⟩
    split at h
    · next hdelta =>
      cases h
      rw [if_pos hdelta]
    · next hdelta =>
      repeat' split at h
      all_goals cases h
      rw [if_neg hdelta]

theorem removeWeight_eq_ok {delta : UInt64} (h : m.removeWeight node delta = .ok m') :
    ∃ member, m.get? node = some member ∧
      m' = if delta = 0 then m
        else if member.weight = delta then m.erase node
        else m.insert node { member with weight := member.weight - delta } := by
  unfold removeWeight at h
  split at h
  · cases h
  · next member hm =>
    refine ⟨member, hm, ?_⟩
    split at h
    · next hdelta =>
      cases h
      rw [if_pos hdelta]
    · next hdelta =>
      rw [if_neg hdelta]
      split at h
      · cases h
      split at h
      · next hall =>
        cases h
        rw [if_pos hall]
      · next hall =>
        cases h
        rw [if_neg hall]

end Granted

/-! ## Totals -/

theorem total_eq_sum (m : StakeMap) : m.total = Table.sum (·.weight.toNat) m :=
  Amount.sum_eq_list_sum _

theorem total_insert (m : StakeMap) (node : NodeId) (member : Member) :
    total (m.insert node member) = member.weight.toNat + total (m.erase node) := by
  rw [total_eq_sum, total_eq_sum]
  exact Table.sum_insert (·.weight.toNat) m node member

theorem total_erase_add {m : StakeMap} {node : NodeId} {member : Member}
    (h : m.get? node = some member) :
    member.weight.toNat + total (m.erase node) = m.total := by
  rw [total_eq_sum, total_eq_sum]
  exact Table.add_sum_erase (·.weight.toNat) h

theorem total_erase_of_none {m : StakeMap} {node : NodeId} (h : m.get? node = none) :
    total (m.erase node) = m.total := by
  rw [total_eq_sum, total_eq_sum]
  exact Table.sum_erase_of_none (·.weight.toNat) h

/-! ## Well-formed maps -/

/-- Every member has weight, and all weights together are a word. -/
structure WellFormed (m : StakeMap) : Prop where
  weight_ne_zero : ∀ {node member}, m.get? node = some member → member.weight ≠ 0
  total_lt : m.total < Amount.bound

namespace WellFormed

theorem empty : WellFormed (Table.empty : StakeMap) where
  weight_ne_zero h := by rw [Table.get?_empty] at h; cases h
  total_lt := by decide

/-- Putting weight at a node keeps a map well-formed if the total remains a word. -/
theorem insert {m : StakeMap} (h : WellFormed m) {node : NodeId} {member : Member}
    (hweight : member.weight ≠ 0)
    (hfits : member.weight.toNat + total (m.erase node) < Amount.bound) :
    WellFormed (m.insert node member) where
  weight_ne_zero {other found} hget := by
    rw [Table.get?_insert] at hget
    split at hget
    · cases hget; exact hweight
    · exact h.weight_ne_zero hget
  total_lt := by rw [total_insert]; exact hfits

theorem erase {m : StakeMap} (h : WellFormed m) (node : NodeId) : WellFormed (m.erase node) where
  weight_ne_zero {other found} hget := by
    rw [Table.get?_erase] at hget
    split at hget
    · cases hget
    · exact h.weight_ne_zero hget
  total_lt := by
    cases hnode : m.get? node with
    | none => rw [total_erase_of_none hnode]; exact h.total_lt
    | some member =>
      have hsum := total_erase_add hnode
      have hlt := h.total_lt
      omega

/-- Another weight that is not zero and fits the total keeps a map well-formed. -/
theorem reweigh {m m' : StakeMap} (h : WellFormed m) {node : NodeId} {member : Member}
    {weight : UInt64} (hweight : weight ≠ 0) (hm : m.reweigh node member weight = .ok m') :
    WellFormed m' := by
  simp only [StakeMap.reweigh] at hm
  split at hm
  · next hfits =>
    cases hm
    exact h.insert hweight (by rw [Nat.add_comm]; exact hfits)
  · cases hm

theorem add {m m' : StakeMap} (h : WellFormed m) {node : NodeId} {member : Member}
    (hm : m.add node member = .ok m') : WellFormed m' := by
  unfold StakeMap.add at hm
  split at hm
  · cases hm
  · next hweight =>
    split at hm
    · cases hm
    · next hnew =>
      split at hm
      · next hfits =>
        cases hm
        have hnone := Table.contains_eq_false_iff.mp (Bool.eq_false_iff.mpr hnew)
        refine h.insert hweight ?_
        rw [total_erase_of_none hnone, Nat.add_comm]
        exact hfits
      · cases hm

theorem setWeight {m m' : StakeMap} (h : WellFormed m) {node : NodeId} {weight : UInt64}
    (hm : m.setWeight node weight = .ok m') : WellFormed m' := by
  unfold StakeMap.setWeight at hm
  split at hm
  · cases hm
  · split at hm
    · cases hm
    · next hweight => exact h.reweigh hweight hm

theorem addWeight {m m' : StakeMap} (h : WellFormed m) {node : NodeId} {delta : UInt64}
    (hm : m.addWeight node delta = .ok m') : WellFormed m' := by
  unfold StakeMap.addWeight at hm
  split at hm
  · cases hm
  · next member hnode =>
    split at hm
    · cases hm; exact h
    · next hdelta =>
      split at hm
      · cases hm
      · next hown =>
        split at hm
        · cases hm
        · next hfits =>
          cases hm
          have hsum := total_erase_add hnode
          have hadd := Amount.toNat_add_of_lt (Nat.lt_of_not_le hown)
          refine h.insert (fun hzero => hdelta ?_) ?_
          · have hz : (member.weight + delta).toNat = 0 := congrArg UInt64.toNat hzero
            exact UInt64.toNat_inj.mp (show delta.toNat = 0 by omega)
          · simp only [hadd]; omega

theorem removeWeight {m m' : StakeMap} (h : WellFormed m) {node : NodeId} {delta : UInt64}
    (hm : m.removeWeight node delta = .ok m') : WellFormed m' := by
  unfold StakeMap.removeWeight at hm
  split at hm
  · cases hm
  · next member hnode =>
    split at hm
    · cases hm; exact h
    · split at hm
      · cases hm
      · next hstake =>
        split at hm
        · cases hm; exact h.erase node
        · next hall =>
          cases hm
          have hsum := total_erase_add hnode
          have hlt := h.total_lt
          have hsub := UInt64.toNat_sub_of_le member.weight delta
            (UInt64.le_iff_toNat_le.mpr (Nat.le_of_not_lt hstake))
          refine h.insert (fun hzero => hall ?_) ?_
          · have hz : (member.weight - delta).toNat = 0 := congrArg UInt64.toNat hzero
            exact UInt64.toNat_inj.mp (by omega)
          · simp only [hsub]; omega

/-- Every request that is granted leaves a well-formed map. -/
theorem apply {m m' : StakeMap} (h : WellFormed m) {change : StakeChange} {v : Option Validator}
    (hm : m.apply change = .ok (m', v)) : WellFormed m' := by
  cases change with
  | add node key tx weight =>
    obtain ⟨_, hadd, heq⟩ := Outcome.map_eq_ok_iff.mp hm
    cases heq; exact h.add hadd
  | remove node =>
    obtain ⟨⟨_, _⟩, hremove, heq⟩ := Outcome.map_eq_ok_iff.mp hm
    cases heq
    obtain ⟨_, -, rfl⟩ := remove_eq_ok hremove
    exact h.erase node
  | setWeight node weight =>
    obtain ⟨_, hset, heq⟩ := Outcome.map_eq_ok_iff.mp hm
    cases heq; exact h.setWeight hset
  | addWeight node delta =>
    obtain ⟨_, hadd, heq⟩ := Outcome.map_eq_ok_iff.mp hm
    cases heq; exact h.addWeight hadd
  | removeWeight node delta =>
    obtain ⟨_, hremove, heq⟩ := Outcome.map_eq_ok_iff.mp hm
    cases heq; exact h.removeWeight hremove

/-- Every request keeps a map well-formed, granted or refused. -/
theorem step {m : StakeMap} (h : WellFormed m) (change : StakeChange) :
    WellFormed (m.step change) := by
  unfold StakeMap.step
  split
  · exact h
  · next hm => exact h.apply hm

end WellFormed

/-- A map has no slots, so no request finds one corrupted. -/
theorem ne_corruptPosition_of_apply {m : StakeMap} {change : StakeChange} {e : ValidatorError}
    (h : m.apply change = .error e) (node : NodeId) (indexed stored : Nat) :
    e ≠ .corruptPosition node indexed stored := by
  rintro rfl
  cases change with
  | add =>
    have hadd := Outcome.map_eq_error_iff.mp h
    unfold add at hadd
    repeat' split at hadd
    all_goals cases hadd
  | remove =>
    have hremove := Outcome.map_eq_error_iff.mp h
    unfold remove at hremove
    split at hremove <;> cases hremove
  | setWeight =>
    have hset := Outcome.map_eq_error_iff.mp h
    simp only [setWeight, reweigh] at hset
    repeat' split at hset
    all_goals cases hset
  | addWeight =>
    have hadd := Outcome.map_eq_error_iff.mp h
    unfold addWeight at hadd
    repeat' split at hadd
    all_goals cases hadd
  | removeWeight =>
    have hremove := Outcome.map_eq_error_iff.mp h
    unfold removeWeight at hremove
    repeat' split at hremove
    all_goals cases hremove

/-- Whatever is requested, weights stay positive and their sum a word. -/
theorem run_wellFormed (changes : List StakeChange) : WellFormed (run changes) :=
  List.foldlRecOn changes step .empty fun _ h change _ => h.step change

end StakeMap

end StakeGuard
