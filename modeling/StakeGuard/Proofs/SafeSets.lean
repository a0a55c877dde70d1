import StakeGuard.Proofs.RoundTrip
import StakeGuard.Proofs.Verdict
import StakeGuard.ValidatorSet

/-!
# Which canonical sets are safe to verify against

Signed weight is summed up in words without a check, since the weights of some positions cannot exceed
a total that has been checked (`CanonicalSet.Safe`). Main statements: every set that is built from a
snapshot is safe, and is what it is written as is read as (`CanonicalSet.Built.safe_and_readBack`); but a
set that is read has not been built, and nothing is checked there but its keys, so some texts are read as
sets that are not safe (`CanonicalSet.not_safe_of_decodes`).
-/

namespace StakeGuard

namespace CanonicalSet

open Attestation (signersOf weightOf)

variable {set : CanonicalSet} {snapshot : Snapshot}

/-- What verification takes for granted: keys in strict order, entries that weigh no more than the total,
and exact sums of weights at whatever positions. -/
structure Safe (set : CanonicalSet) : Prop where
  keys_ascending : set.keys.Pairwise (compare · · = .lt)
  sum_weight_le : (set.validators.map (·.weight.toNat)).sum ≤ set.totalWeight.toNat
  weightOf_signers : ∀ signers : SignerSet,
    (weightOf (signersOf set signers)).toNat = ((signersOf set signers).map (·.weight.toNat)).sum

/-! ## Sums at some positions -/

theorem filterMap_range_getElem? (entries : List CanonicalValidator) (n : Nat) :
    (List.range n).filterMap (entries[·]?) = entries.take n := by
  induction n with
  | zero => rfl
  | succ n ih =>
    rw [List.range_succ, List.filterMap_append, ih, List.take_add_one]
    cases hentry : entries[n]? <;> simp [hentry]

/-- The signers of any signer set are some of the entries in their order. -/
theorem sublist_signersOf (set : CanonicalSet) (signers : SignerSet) :
    (signersOf set signers).Sublist set.validators := by
  have hpositions : signers.positions.Sublist (List.range signers.size) := List.filter_sublist
  have hrange : (List.range signers.size).filterMap set.get? = set.validators.take signers.size :=
    filterMap_range_getElem? set.validators signers.size
  exact (hrange ▸ hpositions.filterMap set.get?).trans (List.take_sublist _ _)

/-- Order and total are all that safety takes. -/
theorem safe_of_sum_weight_le (hkeys : set.keys.Pairwise (compare · · = .lt))
    (hsum : (set.validators.map (·.weight.toNat)).sum ≤ set.totalWeight.toNat) : set.Safe where
  keys_ascending := hkeys
  sum_weight_le := hsum
  weightOf_signers signers := by
    have hsub := (set.sublist_signersOf signers).map (·.weight.toNat)
    have hle := hsub.sum_le_sum fun _ _ => Nat.zero_le _
    have hlt := Amount.toNat_lt_bound set.totalWeight
    have hzero : (0 : UInt64).toNat = 0 := rfl
    rw [weightOf, toNat_foldl_add_weight (by omega), hzero, Nat.zero_add]

/-- A set that represents a snapshot is safe, as its weights add up to no more than its total. -/
theorem Represents.safe (h : set.Represents snapshot) : set.Safe := by
  refine safe_of_sum_weight_le h.keys_ascending ?_
  rw [h.sum_weight_of_sublist (List.Sublist.refl _), h.total_eq]
  exact snapshot.weight_under_le _

/-! ## Sets that are built -/

/-- The sets made of snapshots: of any, of one whose participants all have keys, or of the list of a
validator set after whatever requests. -/
inductive Built : CanonicalSet → Prop
  | ofSnapshot {snapshot : Snapshot} {set : CanonicalSet} : ofSnapshot snapshot = .ok set → Built set
  | ofParticipants {snapshot : Snapshot} {participants : List NodeId} {set : CanonicalSet} :
    ofParticipants snapshot participants = .ok set → Built set
  | ofValidators {requests : List StakeChange} {set : CanonicalSet} :
    CanonicalSet.ofSnapshot (ValidatorSet.empty.run requests).list = .ok set → Built set

theorem Built.represents (h : set.Built) : ∃ snapshot, set.Represents snapshot := by
  cases h with
  | ofSnapshot h => exact ⟨_, represents_of_ofSnapshot h⟩
  | @ofParticipants snapshot participants _ h =>
    unfold CanonicalSet.ofParticipants at h
    split at h
    · cases h
    · exact ⟨snapshot, represents_of_ofSnapshot h⟩
  | ofValidators h => exact ⟨_, represents_of_ofSnapshot h⟩

/-- A set that can be written: its keys pass their check, and words count its lists. -/
structure Writable (S : SignatureScheme) (set : CanonicalSet) : Prop where
  isPublicKey : ∀ entry ∈ set.validators, S.isPublicKey entry.key = true
  length_validators : set.validators.length < Bytes.capacity 8
  length_nodes : ∀ entry ∈ set.validators, entry.nodes.length < Bytes.capacity 8

end CanonicalSet

namespace Form

variable {S : SignatureScheme}

theorem readsBack_canonicalValidator {entry : CanonicalValidator}
    (hkey : S.isPublicKey entry.key = true) (hnodes : entry.nodes.length < Bytes.capacity 8) :
    (canonicalValidator S).ReadsBack entry := by
  have hnames : ["public_key", "weight", "node_ids"].Nodup := by decide
  refine ReadsBack.convert (Fields.ReadsBack.form ?_ hnames rfl) rfl
  exact (Fields.readsBack_fieldOr _ (readsBack_publicKey hkey) _).and rfl
    ((Fields.readsBack_fieldOr _ (readsBack_uint64 entry.weight) _).and rfl
      (Fields.readsBack_fieldOr _ (readsBack_list (fun id _ => readsBack_identifier id) hnodes) _))

/-- A set whose keys are valid and whose lists can be counted is read back. -/
theorem readsBack_canonicalSet {set : CanonicalSet} (h : set.Writable S) :
    (canonicalSet S).ReadsBack set := by
  have hnames : ["validators", "total_weight"].Nodup := by decide
  refine ReadsBack.convert (Fields.ReadsBack.form ?_ hnames rfl) rfl
  have hentries : ∀ entry ∈ set.validators, (canonicalValidator S).ReadsBack entry :=
    fun entry hentry => readsBack_canonicalValidator (h.isPublicKey entry hentry)
      (h.length_nodes entry hentry)
  exact (Fields.readsBack_fieldOr _ (readsBack_list hentries h.length_validators) _).and rfl
    (Fields.readsBack_fieldOr _ (readsBack_uint64 set.totalWeight) _)

end Form

theorem Bls.isPublicKey_generatorKey : scheme.isPublicKey generatorKey = true := by
  decide +kernel

namespace CanonicalSet

open Attestation (signersOf)

variable {set : CanonicalSet}

/-- **Sets that are built are safe.** Whichever way a set is made of a snapshot, its keys ascend, its
entries weigh no more than its total and no sum of its weights overflows; written as JSON or as bytes, it
is read as itself. -/
theorem Built.safe_and_readBack (h : set.Built) :
    set.Safe ∧ ∀ S, set.Writable S →
      (Form.canonicalSet S).ofJsonText? ((Form.canonicalSet S).jsonText set).toList = some set ∧
      (Form.canonicalSet S).ofBytes? ((Form.canonicalSet S).toBytes set) = some set := by
  obtain ⟨snapshot, hrepresents⟩ := h.represents
  refine ⟨hrepresents.safe, fun S hwritable => ?_⟩
  have hback := Form.readsBack_canonicalSet hwritable
  exact ⟨hback.ofJsonText?_jsonText (Form.faithful_canonicalSet.plain set), hback.ofBytes?_toBytes⟩

/-- Two nodes of one key, whose weights fill a word, make one entry. -/
theorem safe_of_shared_key :
    let snapshot : Snapshot :=
      [⟨.zero, some Bls.generatorKey, 18446744073709551614⟩, ⟨⟨.ofNat 20 1⟩, some Bls.generatorKey, 1⟩]
    let set : CanonicalSet :=
      ⟨[⟨Bls.generatorKey, 18446744073709551615, [.zero, ⟨.ofNat 20 1⟩]⟩], 18446744073709551615⟩
    ofSnapshot snapshot = .ok set ∧ set.Safe ∧ set.Writable Bls.scheme ∧
      (Form.canonicalSet Bls.scheme).ofBytes? ((Form.canonicalSet Bls.scheme).toBytes set) =
        some set := by
  intro snapshot set
  have hset : ofSnapshot snapshot = .ok set := by decide +kernel
  obtain ⟨hsafe, hread⟩ := (Built.ofSnapshot hset).safe_and_readBack
  have hwritable : set.Writable Bls.scheme := by
    refine ⟨fun entry hentry => ?_, by decide, fun entry hentry => ?_⟩ <;>
      cases List.mem_singleton.mp hentry
    · dsimp only
      exact Bls.isPublicKey_generatorKey
    · exact (show 2 < Bytes.capacity 8 by decide)
  exact ⟨hset, hsafe, hwritable, (hread _ hwritable).2⟩

/-- One key at two positions, whose weights exceed a word together. -/
def forged : CanonicalSet :=
  ⟨[⟨Bls.generatorKey, 18446744073709551615, []⟩, ⟨Bls.generatorKey, 1, []⟩], 1⟩

/-- Nothing in the forged set keeps it from being written. -/
theorem writable_forged : forged.Writable Bls.scheme where
  isPublicKey entry hentry := by
    rcases List.mem_pair.mp hentry with rfl | rfl
    all_goals
      dsimp only
      exact Bls.isPublicKey_generatorKey
  length_validators := by decide
  length_nodes entry hentry := by
    rcases List.mem_pair.mp hentry with rfl | rfl <;> exact (show 0 < Bytes.capacity 8 by decide)

/-- The forged set is read, and its signed weight is summed up to nothing. -/
theorem not_safe_of_decodes :
    ¬∀ set, (Form.canonicalSet Bls.scheme).Decodes set → set.Safe := by
  intro hsafe
  have hdecodes : (Form.canonicalSet Bls.scheme).Decodes forged :=
    Form.faithful_canonicalSet.decodes_iff.mpr (Form.readsBack_canonicalSet writable_forged)
  have hsum := (hsafe forged hdecodes).weightOf_signers ⟨[true, true]⟩
  have hsigners : signersOf forged ⟨[true, true]⟩ = forged.validators := rfl
  rw [hsigners] at hsum
  revert hsum
  decide

end CanonicalSet

end StakeGuard
