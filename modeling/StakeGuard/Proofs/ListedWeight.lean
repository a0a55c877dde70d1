import StakeGuard.Proofs.Scanning
import StakeGuard.Proofs.SnapshotWeight

/-!
# The weight of a list of nodes

The weight of listed nodes is summed up along the list, whether it comes to a node for the first time or
not. So a validator counts as often as it is listed (`ValidatorSet.tally`), and the sum is refused where it
outgrows a word. Listed once each, validators weigh what they weigh together, which is no more than the
total. Main statement: `ValidatorSet.subsetWeight_weighs`.
-/

namespace StakeGuard

/-! ## Sums over keys that may repeat -/

namespace Table

variable {K V : Type} [DecidableEq K] (f : V → Nat)

theorem sum_ite_key (t : Table K V) (k : K) :
    (t.entries.map fun e => if k = e.1 then f e.2 else 0).sum = t.amount f k := by
  have hrest : ((t.erase k).entries.map fun e => if k = e.1 then f e.2 else 0).sum = 0 := by
    refine List.sum_eq_zero fun n hn => ?_
    obtain ⟨e, he, rfl⟩ := List.mem_map.mp hn
    have hne : e.1 ≠ k := of_decide_eq_true (List.mem_filter.mp he).2
    exact if_neg (Ne.symm hne)
  cases hget : t.get? k with
  | none =>
    rw [entries_erase_of_none hget] at hrest
    simp [amount, hget, hrest]
  | some v =>
    have hsum := ((entries_perm_cons_erase hget).map fun e => if k = e.1 then f e.2 else 0).sum_nat
    rw [List.map_cons, List.sum_cons, hrest, if_pos rfl, Nat.add_zero] at hsum
    simp [amount, hget, hsum]

/-- What listed keys amount to is what each entry does, as often as its key is listed. -/
theorem sum_amount_eq_sum_count (t : Table K V) (keys : List K) :
    (keys.map (t.amount f)).sum = (t.entries.map fun e => keys.count e.1 * f e.2).sum := by
  induction keys with
  | nil => simp
  | cons k keys ih =>
    have hcount : ∀ e : K × V, (k :: keys).count e.1 * f e.2 =
        (if k = e.1 then f e.2 else 0) + keys.count e.1 * f e.2 := by
      intro e
      rw [List.count_cons, Nat.add_mul, Nat.add_comm]
      by_cases hk : k = e.1 <;> simp [hk]
    simp only [hcount]
    rw [List.sum_map_add, sum_ite_key, ← ih, List.map_cons, List.sum_cons]

end Table

/-- The validators whose nodes are listed. -/
def Snapshot.listed (snapshot : Snapshot) (nodes : List NodeId) : Snapshot :=
  snapshot.filter fun v => nodes.contains v.node

theorem Snapshot.weight_listed (snapshot : Snapshot) (nodes : List NodeId) :
    (snapshot.listed nodes).weight =
      (snapshot.map fun v => if v.node ∈ nodes then v.weight.toNat else 0).sum := by
  rw [weight_eq_sum, listed]
  simp only [List.contains_eq_mem]
  induction snapshot with
  | nil => rfl
  | cons v rest ih =>
    by_cases hv : v.node ∈ nodes <;> simp [hv, ih]

namespace ValidatorSet

variable {s : ValidatorSet} {nodes : List NodeId}

/-- The exact weight of listed nodes, each validator counted as often as it is listed. -/
def tally (s : ValidatorSet) (nodes : List NodeId) : Nat :=
  (s.list.map fun v => nodes.count v.node * v.weight.toNat).sum

/-- Where no validator is listed more than once, each listed one counts. -/
theorem tally_eq_weight_listed (honce : ∀ v ∈ s.list, nodes.count v.node ≤ 1) :
    s.tally nodes = (s.list.listed nodes).weight := by
  rw [Snapshot.weight_listed, tally]
  refine congrArg List.sum (List.map_congr_left fun v hv => ?_)
  by_cases hlisted : v.node ∈ nodes
  · have hone : nodes.count v.node = 1 :=
      Nat.le_antisymm (honce v hv) (List.one_le_count_iff.mpr hlisted)
    rw [hone, Nat.one_mul, if_pos hlisted]
  · rw [List.count_eq_zero_of_not_mem hlisted, Nat.zero_mul, if_neg hlisted]

namespace Consistent

variable (h : s.Consistent)
include h

theorem amount_stakes : h.stakes.amount (·.weight.toNat) = fun node => (s.weight node).toNat := by
  funext node
  rw [h.holds.mirrors.weight, Table.amount]
  cases h.stakes.get? node <;> rfl

theorem tally_eq (nodes : List NodeId) :
    s.tally nodes = (nodes.map fun node => (s.weight node).toNat).sum := by
  rw [← h.amount_stakes, Table.sum_amount_eq_sum_count, tally, list, stakes, List.map_map,
    List.map_map]
  rfl

theorem tally_concat (nodes : List NodeId) (node : NodeId) :
    s.tally (nodes ++ [node]) = s.tally nodes + (s.weight node).toNat := by
  simp [h.tally_eq]

theorem weight_listed_le (nodes : List NodeId) :
    (s.list.listed nodes).weight ≤ s.totalWeight.toNat := by
  rw [h.total_eq]
  exact Snapshot.weight_le_of_sublist List.filter_sublist

end Consistent

/-! ## Summing along the list -/

/-- The sum with the weight of one more node. -/
def addListed (s : ValidatorSet) (sum : UInt64) (node : NodeId) : Except ValidatorError UInt64 :=
  match Amount.add? sum (s.weight node) with
  | none => .error (.weightOverflow sum (s.weight node))
  | some sum => .ok sum

theorem subsetWeight_eq_foldlM (s : ValidatorSet) (nodes : List NodeId) :
    s.subsetWeight nodes = nodes.foldlM s.addListed 0 := rfl

theorem addListed_eq_ok_iff {sum total : UInt64} {node : NodeId} :
    s.addListed sum node = .ok total ↔ total.toNat = sum.toNat + (s.weight node).toNat := by
  rw [← Amount.add?_eq_some_iff, addListed]
  cases Amount.add? sum (s.weight node) <;> simp

theorem addListed_eq_error_iff {sum : UInt64} {node : NodeId} {e : ValidatorError} :
    s.addListed sum node = .error e ↔ Amount.bound ≤ sum.toNat + (s.weight node).toNat ∧
      e = .weightOverflow sum (s.weight node) := by
  rw [← Amount.add?_eq_none_iff, addListed]
  cases Amount.add? sum (s.weight node) <;> simp [eq_comm]

/-- A sum along a list is granted exactly if it is that of the weights. -/
theorem foldlM_addListed_eq_ok_iff {sum total : UInt64} :
    nodes.foldlM s.addListed sum = .ok total ↔
      total.toNat = sum.toNat + (nodes.map fun node => (s.weight node).toNat).sum := by
  induction nodes generalizing sum with
  | nil =>
    rw [List.map_nil, List.sum_nil, Nat.add_zero, UInt64.toNat_inj]
    exact ⟨fun heq => (Except.ok.inj heq).symm, fun heq => heq ▸ rfl⟩
  | cons node rest ih =>
    rw [List.foldlM_cons, List.map_cons, List.sum_cons, ← Nat.add_assoc]
    cases hstep : s.addListed sum node with
    | ok next =>
      rw [← addListed_eq_ok_iff.mp hstep]
      exact ih
    | error e =>
      -- the sum only grows, and it is past all words already
      have hfull := (addListed_eq_error_iff.mp hstep).1
      have htotal := Amount.toNat_lt_bound total
      exact iff_of_false nofun (by omega)

namespace Consistent

variable (h : s.Consistent)
include h

/-- A weight is answered exactly if it is the tally. -/
theorem subsetWeight_eq_ok_iff {weight : UInt64} :
    s.subsetWeight nodes = .ok weight ↔ weight.toNat = s.tally nodes := by
  rw [subsetWeight_eq_foldlM, foldlM_addListed_eq_ok_iff, h.tally_eq]
  exact iff_of_eq (congrArg _ (Nat.zero_add _))

/-- A refusal names the sum so far and the weight of the first node that does not fit. -/
theorem subsetWeight_eq_error_iff {e : ValidatorError} :
    s.subsetWeight nodes = .error e ↔ ∃ before node after, nodes = before ++ node :: after ∧
      s.tally before < Amount.bound ∧ Amount.bound ≤ s.tally (before ++ [node]) ∧
      e = .weightOverflow (.ofNat (s.tally before)) (s.weight node) := by
  rw [subsetWeight_eq_foldlM, Outcome.foldlM_eq_error_iff]
  constructor
  · rintro ⟨before, node, after, sum, hsplit, hbefore, hnode⟩
    have hsum : sum.toNat = s.tally before := h.subsetWeight_eq_ok_iff.mp hbefore
    obtain ⟨hfull, rfl⟩ := addListed_eq_error_iff.mp hnode
    refine ⟨before, node, after, hsplit, hsum ▸ Amount.toNat_lt_bound sum, ?_, ?_⟩
    · rwa [h.tally_concat, ← hsum]
    · rw [← hsum, UInt64.ofNat_toNat]
  · rintro ⟨before, node, after, hsplit, hlt, hfull, rfl⟩
    have hsum : (UInt64.ofNat (s.tally before)).toNat = s.tally before :=
      UInt64.toNat_ofNat_of_lt hlt
    refine ⟨before, node, after, _, hsplit, h.subsetWeight_eq_ok_iff.mpr hsum, ?_⟩
    rw [h.tally_concat] at hfull
    exact addListed_eq_error_iff.mpr ⟨hsum.symm ▸ hfull, rfl⟩

/-- The weight of validators listed once each fits, as the total does. -/
theorem subsetWeight_of_once (honce : ∀ v ∈ s.list, nodes.count v.node ≤ 1) :
    ∃ weight, s.subsetWeight nodes = .ok weight ∧ weight.toNat = (s.list.listed nodes).weight ∧
      weight ≤ s.totalWeight := by
  have hle := h.weight_listed_le nodes
  have heq : (UInt64.ofNat (s.list.listed nodes).weight).toNat = (s.list.listed nodes).weight :=
    UInt64.toNat_ofNat_of_lt (Nat.lt_of_le_of_lt hle s.totalWeight.toNat_lt)
  refine ⟨_, h.subsetWeight_eq_ok_iff.mpr ?_, heq, ?_⟩
  · rw [heq, tally_eq_weight_listed honce]
  · rw [UInt64.le_iff_toNat_le, heq]
    exact hle

end Consistent

/-- What summing up the weight of listed nodes comes to: the exact weight of the validators as often as
they are listed, unless that is no word, and then the error shows the sum that was refused first. Where no
validator is listed more than once it is the weight that the listed ones have together, and no more than
the total. -/
structure Weighs (s : ValidatorSet) (nodes : List NodeId) (answer : Except ValidatorError UInt64) :
    Prop where
  ok_iff : ∀ weight, answer = .ok weight ↔ weight.toNat = s.tally nodes
  error_iff : ∀ e, answer = .error e ↔ ∃ before node after, nodes = before ++ node :: after ∧
    s.tally before < Amount.bound ∧ Amount.bound ≤ s.tally (before ++ [node]) ∧
    e = .weightOverflow (.ofNat (s.tally before)) (s.weight node)
  once : (∀ v ∈ s.list, nodes.count v.node ≤ 1) → ∃ weight, answer = .ok weight ∧
    weight.toNat = (s.list.listed nodes).weight ∧ weight ≤ s.totalWeight

/-- **Listed nodes weigh as often as they are listed.** After any requests, the weight of a list of nodes,
of which some may be no members and some may repeat, is the exact sum over the list, or is refused where
that is no word. Only if no member repeats it is the weight of the listed members, within the total. -/
theorem subsetWeight_weighs (changes : List StakeChange) (nodes : List NodeId) :
    let s := empty.run changes
    s.Weighs nodes (s.subsetWeight nodes) := by
  intro s
  have h : s.Consistent := (Holds.run changes).consistent
  exact ⟨fun _ => h.subsetWeight_eq_ok_iff, fun _ => h.subsetWeight_eq_error_iff,
    h.subsetWeight_of_once⟩

/-- The only validator, listed twice, outweighs the total. -/
theorem subsetWeight_of_repeated :
    let s := empty.run [.add .zero none none 10]
    let nodes : List NodeId := [.zero, .zero]
    s.subsetWeight nodes = .ok 20 ∧ s.totalWeight = 10 ∧
      ¬∃ weight, s.subsetWeight nodes = .ok weight ∧
        weight.toNat = (s.list.listed nodes).weight ∧ weight ≤ s.totalWeight := by
  intro s nodes
  have hanswer : s.subsetWeight nodes = .ok 20 := by decide +kernel
  refine ⟨hanswer, by decide +kernel, ?_⟩
  rintro ⟨weight, hweight, -, hle⟩
  rw [hanswer] at hweight
  cases hweight
  exact absurd hle (by decide +kernel)

end ValidatorSet

end StakeGuard
