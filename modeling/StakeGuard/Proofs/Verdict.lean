import Mathlib.Algebra.BigOperators.Fin
import Mathlib.Data.Fintype.BigOperators
import Mathlib.Data.List.FinRange
import StakeGuard.Bls.Scheme
import StakeGuard.Proofs.Canonical
import StakeGuard.Proofs.SignerBits

/-!
# The verdict on an attestation

`Attestation.ruling` says which objection an attestation meets first, in terms of the set of claimed
positions, their exact weight and the keys at them. Main statement: against a canonical set made of a
snapshot, verification gives this ruling, no sum of weights overflows on the way, and under a valid
quorum whatever is refused is the sender's fault (`verdict_of_ofSnapshot`).
-/

namespace StakeGuard

variable {S : SignatureScheme} {a : Attestation} {message : Message} {set : CanonicalSet}
  {quorum : Quorum} {snapshot : Snapshot}

namespace CanonicalSet

/-- The entry at a position of the set. -/
def signer (set : CanonicalSet) (i : Fin set.size) : CanonicalValidator := set.validators.get i

/-- The positions among the given ones, ascending. -/
def listed (set : CanonicalSet) (positions : Finset (Fin set.size)) : List (Fin set.size) :=
  (List.finRange set.size).filter (· ∈ positions)

/-- The exact weight at some positions. -/
def weightAt (set : CanonicalSet) (positions : Finset (Fin set.size)) : Nat :=
  ∑ i ∈ positions, (set.signer i).weight.toNat

/-- The keys at some positions, ascending. -/
def keysAt (set : CanonicalSet) (positions : Finset (Fin set.size)) : List PublicKey :=
  (set.listed positions).map fun i => (set.signer i).key

variable {positions : Finset (Fin set.size)}

theorem map_signer_finRange (set : CanonicalSet) :
    (List.finRange set.size).map set.signer = set.validators := List.map_get_finRange _

theorem sublist_listed (set : CanonicalSet) (positions : Finset (Fin set.size)) :
    ((set.listed positions).map set.signer).Sublist set.validators := by
  have hsub : (set.listed positions).Sublist (List.finRange set.size) := List.filter_sublist
  simpa only [map_signer_finRange] using hsub.map set.signer

theorem sum_listed (f : Fin set.size → Nat) :
    ((set.listed positions).map f).sum = ∑ i ∈ positions, f i := by
  have hnodup : (set.listed positions).Nodup := (List.nodup_finRange _).filter _
  rw [← List.sum_toFinset f hnodup]
  congr 1
  ext i
  simp [listed]

theorem listed_eq_nil_iff : set.listed positions = [] ↔ positions = ∅ := by
  simp [listed, Finset.eq_empty_iff_forall_notMem, List.filter_eq_nil_iff]

end CanonicalSet

/-- A sum of weights that fits a word is exact, though it is taken without checks. -/
theorem toNat_foldl_add_weight {validators : List CanonicalValidator} {start : UInt64}
    (h : start.toNat + (validators.map (·.weight.toNat)).sum < Amount.bound) :
    (validators.foldl (fun sum v => sum + v.weight) start).toNat =
      start.toNat + (validators.map (·.weight.toNat)).sum := by
  induction validators generalizing start with
  | nil => rfl
  | cons v rest ih =>
    rw [List.map_cons, List.sum_cons] at h ⊢
    have hadd : (start + v.weight).toNat = start.toNat + v.weight.toNat :=
      Amount.toNat_add_of_lt (by omega)
    rw [List.foldl_cons, ih (by omega), hadd, Nat.add_assoc]

namespace SignatureScheme

/-- The scheme can join any keys that are in the snapshot. -/
def Joins (S : SignatureScheme) (snapshot : Snapshot) : Prop :=
  ∀ keys ≠ [], (∀ key ∈ keys, ∃ v ∈ snapshot, v.key = some key) → (S.joinKeys? keys).isSome

/-- Whether a signature of the message is good under the join of the keys. -/
def attests (S : SignatureScheme) (keys : List PublicKey) (message : Message)
    (signature : Signature) : Bool :=
  match S.joinKeys? keys, message.encode with
  | some key, .ok bytes => S.verify key bytes signature
  | _, _ => false

end SignatureScheme

namespace Attestation

/-- The positions whose bits are set in the number that the signers' bytes write. -/
def claimed (a : Attestation) (set : CanonicalSet) : Finset (Fin set.size) :=
  Finset.univ.filter fun i => (Bytes.toNatBE a.signers).testBit i

/-- The first objection to the quorum, to the claimed positions or to their weight; `rest` where there
is none. -/
def stakeRuling (a : Attestation) (set : CanonicalSet) (quorum : Quorum)
    (rest : Except AttestationError Unit) : Except AttestationError Unit :=
  let signed := set.weightAt (a.claimed set)
  if quorum.den = 0 ∨ quorum.num = 0 ∨ quorum.den < quorum.num then
    .error (.invalidQuorum quorum.num quorum.den)
  else if a.signers.length ≠ (set.size + 7) / 8 then
    .error (.invalidBitset
      (SignerSet.Fault.byteCount a.signers.length set.size ((set.size + 7) / 8)).message)
  else if h : 2 ^ set.size ≤ Bytes.toNatBE a.signers then
    .error (.invalidBitset (SignerSet.Fault.extraBit
      (Nat.find (Nat.exists_ge_and_testBit_of_ge_two_pow h)) set.size).message)
  else if signed * quorum.den.toNat < set.totalWeight.toNat * quorum.num.toNat then
    .error (.insufficientWeight (.ofNat signed) set.totalWeight quorum.num quorum.den)
  else if a.claimed set = ∅ then .error .noSigners
  else rest

/-- The first objection to an attestation, in the order in which they are raised. -/
def ruling (S : SignatureScheme) (a : Attestation) (message : Message) (set : CanonicalSet)
    (quorum : Quorum) : Except AttestationError Unit :=
  a.stakeRuling set quorum <|
    if S.isSignature ⟨a.signature⟩ = false then .error (.parseSignature .invalidSignature)
    else if 2 ^ 32 ≤ message.payload.length then
      .error (.malformedMessage (Message.Fault.payloadTooLong message.payload.length).message)
    else if S.attests (set.keysAt (a.claimed set)) message ⟨a.signature⟩ = false then
      .error .invalidSignature
    else .ok ()

/-- The entries at the claimed positions, in ascending order. -/
def claimants (a : Attestation) (set : CanonicalSet) : List CanonicalValidator :=
  (set.listed (a.claimed set)).map set.signer

/-- The signers that a verification finds are the entries at the claimed positions. -/
theorem signersOf_ofNumber :
    signersOf set (.ofNumber set.size (Bytes.toNatBE a.signers)) = a.claimants set := by
  have hlisted : (List.range set.size).filter (Bytes.toNatBE a.signers).testBit =
      (set.listed (a.claimed set)).map Fin.val := by
    rw [← List.map_coe_finRange_eq_range, List.filter_map, CanonicalSet.listed]
    congr 1
    refine List.filter_congr fun i _ => ?_
    simp [claimed]
  have hget : ∀ i : Fin set.size, set.get? i.val = some (set.signer i) :=
    fun i => List.getElem?_eq_getElem i.isLt
  rw [signersOf, SignerSet.positions_ofNumber, hlisted, List.filterMap_map, claimants]
  have hsome : set.get? ∘ Fin.val = some ∘ set.signer := funext hget
  rw [hsome, List.filterMap_eq_map]

theorem keys_claimants : (a.claimants set).map (·.key) = set.keysAt (a.claimed set) := by
  rw [claimants, List.map_map]
  rfl

theorem sum_weight_claimants :
    ((a.claimants set).map (·.weight.toNat)).sum = set.weightAt (a.claimed set) := by
  rw [claimants, List.map_map]
  exact CanonicalSet.sum_listed _

theorem isEmpty_claimants : (a.claimants set).isEmpty = true ↔ a.claimed set = ∅ := by
  rw [List.isEmpty_iff, claimants, List.map_eq_nil_iff, CanonicalSet.listed_eq_nil_iff]

end Attestation

namespace CanonicalSet.Represents

variable (h : set.Represents snapshot) (positions : Finset (Fin set.size))
include h

/-- The weight at positions is that of the validators registered under the keys there. -/
theorem weight_under_keysAt :
    (snapshot.under (set.keysAt positions)).weight = set.weightAt positions := by
  have hsum := h.sum_weight_of_sublist (set.sublist_listed positions)
  rw [List.map_map, List.map_map] at hsum
  rw [weightAt, ← sum_listed]
  exact hsum.symm

theorem weightAt_le : set.weightAt positions ≤ set.totalWeight.toNat := by
  rw [← h.weight_under_keysAt, h.total_eq]
  exact Snapshot.weight_under_le _ _

theorem keysAt_nodup : (set.keysAt positions).Nodup := by
  have hsub := (set.sublist_listed positions).map (·.key)
  rw [List.map_map] at hsub
  exact h.keys_nodup.sublist hsub

theorem mem_keysAt {key : PublicKey} (hkey : key ∈ set.keysAt positions) :
    ∃ v ∈ snapshot, v.key = some key := by
  obtain ⟨i, -, rfl⟩ := List.mem_map.mp hkey
  exact h.mem_keys_iff.mp (List.mem_map_of_mem (List.get_mem _ _))

theorem joinKeys?_isSome (hjoin : S.Joins snapshot) (hne : positions ≠ ∅) :
    (S.joinKeys? (set.keysAt positions)).isSome := by
  refine hjoin _ (fun hnil => hne ?_) fun key hkey => h.mem_keysAt positions hkey
  exact listed_eq_nil_iff.mp (List.map_eq_nil_iff.mp hnil)

end CanonicalSet.Represents

namespace Attestation

/-- The words in which signed weight is summed up never overflow. -/
theorem toNat_weightOf_claimants (h : set.Represents snapshot) :
    (weightOf (a.claimants set)).toNat = set.weightAt (a.claimed set) := by
  have hle := h.weightAt_le (a.claimed set)
  have hlt := Amount.toNat_lt_bound set.totalWeight
  have hzero : (0 : UInt64).toNat = 0 := rfl
  rw [weightOf, toNat_foldl_add_weight, sum_weight_claimants, hzero, Nat.zero_add]
  rw [sum_weight_claimants, hzero]
  omega

/-- The signer set is that of the number's bits, if the bytes are as many as needed and no bit is beyond
the positions. -/
theorem signerSet_eq :
    a.signerSet set =
      if a.signers.length ≠ (set.size + 7) / 8 then
        .error (.invalidBitset
          (SignerSet.Fault.byteCount a.signers.length set.size ((set.size + 7) / 8)).message)
      else if h : 2 ^ set.size ≤ Bytes.toNatBE a.signers then
        .error (.invalidBitset (SignerSet.Fault.extraBit
          (Nat.find (Nat.exists_ge_and_testBit_of_ge_two_pow h)) set.size).message)
      else .ok (.ofNumber set.size (Bytes.toNatBE a.signers)) := by
  rw [signerSet]
  by_cases hlength : a.signers.length = (set.size + 7) / 8
  · rw [SignerSet.decode_of_length hlength, if_neg (not_not.mpr hlength)]
    by_cases hover : 2 ^ set.size ≤ Bytes.toNatBE a.signers
    · rw [dif_pos hover, dif_pos hover]
    · rw [dif_neg hover, dif_neg hover]
  · have hcount : a.signers.length ≠ SignerSet.encodedLength set.size := hlength
    rw [SignerSet.decode, if_pos hcount, if_pos hlength]
    rfl

theorem eq_ofNumber_of_signerSet {signers : SignerSet} (h : a.signerSet set = .ok signers) :
    signers = .ofNumber set.size (Bytes.toNatBE a.signers) := by
  rw [signerSet_eq] at h
  split at h
  · cases h
  split at h
  · cases h
  · exact (Except.ok.inj h).symm

/-- Once keys can be joined, a verification of the signature has three ways to fail. -/
theorem verifySignature_claimants (h : set.Represents snapshot) (hjoin : S.Joins snapshot)
    (hne : a.claimed set ≠ ∅) :
    a.verifySignature S message (a.claimants set) =
      if S.isSignature ⟨a.signature⟩ = false then .error (.parseSignature .invalidSignature)
      else if 2 ^ 32 ≤ message.payload.length then
        .error (.malformedMessage (Message.Fault.payloadTooLong message.payload.length).message)
      else if S.attests (set.keysAt (a.claimed set)) message ⟨a.signature⟩ = false then
        .error .invalidSignature
      else .ok () := by
  obtain ⟨key, hkey⟩ := Option.isSome_iff_exists.mp (h.joinKeys?_isSome _ hjoin hne)
  have hkeys : (set.keysAt (a.claimed set)).isEmpty = false := by
    rw [← keys_claimants, List.isEmpty_map, Bool.eq_false_iff]
    exact fun hempty => hne (isEmpty_claimants.mp hempty)
  have haggregate : S.aggregateKeys (set.keysAt (a.claimed set)) = .ok key := by
    rw [SignatureScheme.aggregateKeys, hkeys, if_neg Bool.false_ne_true, hkey]
  rw [verifySignature, SignatureScheme.readSignature, keys_claimants, haggregate,
    SignatureScheme.attests, hkey, Message.encode]
  cases S.isSignature ⟨a.signature⟩ with
  | false => rfl
  | true =>
    have hread : ¬(true = false) := by decide
    rw [if_pos (rfl : true = true), if_neg hread]
    by_cases hlong : 2 ^ 32 ≤ message.payload.length
    · have hbound : ¬message.payload.length < Message.payloadBound := Nat.not_lt.mpr hlong
      simp only [if_neg hbound, if_pos hlong]
    · have hbound : message.payload.length < Message.payloadBound := Nat.not_le.mp hlong
      simp only [if_pos hbound, if_neg hlong]
      cases S.verify key _ ⟨a.signature⟩ <;> rfl

/-- Verification rules on the quorum, the signer set and the signed weight first. -/
theorem verify_eq_stakeRuling (h : set.Represents snapshot) :
    a.verify S message set quorum =
      a.stakeRuling set quorum (a.verifySignature S message (a.claimants set)) := by
  have hweight := toNat_weightOf_claimants (a := a) h
  have hword : UInt64.ofNat (set.weightAt (a.claimed set)) = weightOf (a.claimants set) := by
    rw [← hweight, UInt64.ofNat_toNat]
  rw [verify, stakeRuling, Quorum.validate]
  -- both sides go through the same objections, so each is a case of its own
  by_cases hquorum : quorum.den = 0 ∨ quorum.num = 0 ∨ quorum.den < quorum.num
  · have hvalid : quorum.isValid = false := by
      rcases hquorum with h | h | h <;> simp [Quorum.isValid, h]
    simp only [hvalid, if_pos hquorum, Bool.false_eq_true, if_false]
  have hvalid : quorum.isValid = true := by
    simp only [not_or, UInt64.not_lt] at hquorum
    simp [Quorum.isValid, hquorum]
  simp only [hvalid, if_neg hquorum, if_true, signerSet_eq]
  by_cases hlength : a.signers.length ≠ (set.size + 7) / 8
  · simp only [if_pos hlength]
  simp only [if_neg hlength]
  by_cases hover : 2 ^ set.size ≤ Bytes.toNatBE a.signers
  · simp only [dif_pos hover]
  simp only [dif_neg hover, signersOf_ofNumber, Quorum.checkWeight, hweight, hword]
  by_cases hlight : set.weightAt (a.claimed set) * quorum.den.toNat <
      set.totalWeight.toNat * quorum.num.toNat
  · simp only [gt_iff_lt, if_pos hlight]
  simp only [gt_iff_lt, if_neg hlight]
  by_cases hempty : a.claimed set = ∅
  · simp only [if_pos hempty, if_pos (isEmpty_claimants.mpr hempty)]
  · simp only [if_neg hempty, if_neg (isEmpty_claimants.not.mpr hempty)]

theorem stakeRuling_congr {rest rest' : Except AttestationError Unit}
    (h : a.claimed set ≠ ∅ → rest = rest') :
    a.stakeRuling set quorum rest = a.stakeRuling set quorum rest' := by
  rw [stakeRuling, stakeRuling]
  by_cases hempty : a.claimed set = ∅
  · simp only [if_pos hempty]
  · rw [h hempty]

theorem stakeRuling_eq_ok {rest : Except AttestationError Unit}
    (h : a.stakeRuling set quorum rest = .ok ()) :
    set.totalWeight.toNat * quorum.num.toNat ≤ set.weightAt (a.claimed set) * quorum.den.toNat ∧
      a.claimed set ≠ ∅ ∧ rest = .ok () := by
  rw [stakeRuling] at h
  split at h
  · cases h
  split at h
  · cases h
  split at h
  · cases h
  split at h
  · cases h
  next hheavy =>
    split at h
    · cases h
    · next hne => exact ⟨Nat.le_of_not_lt hheavy, hne, h⟩

/-- Against a set that represents a snapshot, verification gives the ruling. -/
theorem verify_eq_ruling (h : set.Represents snapshot) (hjoin : S.Joins snapshot) (a : Attestation)
    (message : Message) (quorum : Quorum) :
    a.verify S message set quorum = a.ruling S message set quorum := by
  rw [verify_eq_stakeRuling h, ruling]
  exact stakeRuling_congr fun hne => verifySignature_claimants h hjoin hne

theorem verifySignature_eq_ok {signers : List CanonicalValidator}
    (h : a.verifySignature S message signers = .ok ()) :
    S.isSignature ⟨a.signature⟩ ∧ S.attests (signers.map (·.key)) message ⟨a.signature⟩ := by
  rw [verifySignature, SignatureScheme.readSignature] at h
  by_cases hread : S.isSignature ⟨a.signature⟩ = true
  · refine ⟨hread, ?_⟩
    simp only [if_pos hread, SignatureScheme.aggregateKeys] at h
    rw [SignatureScheme.attests]
    cases hjoined : S.joinKeys? (signers.map (·.key)) with
    | none =>
      rw [hjoined] at h
      split at h
      · cases h
      · next heq => split at heq <;> cases heq
    | some key =>
      rw [hjoined] at h
      split at h
      · cases h
      · next joined heq =>
        split at heq
        · cases heq
        · cases heq
          cases hencode : message.encode with
          | error fault =>
            rw [hencode] at h
            cases h
          | ok bytes =>
            simp only [hencode] at h
            split at h
            · next hverify => exact hverify
            · cases h
  · simp only [if_neg hread] at h
    cases h

/-- Under a valid quorum every objection is the sender's fault. -/
theorem ruling_error {e : AttestationError} (h : a.ruling S message set quorum = .error e) :
    (quorum.isValid = false ∧ e = .invalidQuorum quorum.num quorum.den) ∨
      e.errorClass = .integrity := by
  simp only [ruling, stakeRuling] at h
  split at h
  · next hquorum =>
    cases h
    refine .inl ⟨?_, rfl⟩
    rcases hquorum with h | h | h <;> simp [Quorum.isValid, h]
  · right
    -- every later objection is due to the sender
    repeat' split at h
    all_goals cases h
    all_goals rfl

/-- Against the canonical set of a snapshot whose keys can be joined, an attestation is judged by the
first objection to it. The words in which the signed weight is summed up hold the exact sum, which is
at most the total. -/
theorem verdict_of_ofSnapshot (hset : CanonicalSet.ofSnapshot snapshot = .ok set)
    (hjoin : S.Joins snapshot) (a : Attestation) (message : Message) (quorum : Quorum) :
    a.verify S message set quorum = a.ruling S message set quorum ∧
    (∀ signers, a.signerSet set = .ok signers →
      (weightOf (signersOf set signers)).toNat = set.weightAt (a.claimed set)) ∧
    set.weightAt (a.claimed set) ≤ set.totalWeight.toNat ∧
    (∀ cause, a.verify S message set quorum ≠ .error (.aggregation cause)) ∧
    (quorum.isValid → ∀ e, a.verify S message set quorum = .error e →
      e.errorClass = .integrity) := by
  have hrep := CanonicalSet.represents_of_ofSnapshot hset
  have hruling := verify_eq_ruling hrep hjoin a message quorum
  refine ⟨hruling, ?_, hrep.weightAt_le _, ?_, ?_⟩
  · intro signers hsigners
    obtain rfl : .ofNumber set.size (Bytes.toNatBE a.signers) = signers := by
      rw [signerSet_eq] at hsigners
      split at hsigners
      · cases hsigners
      · split at hsigners
        · cases hsigners
        · cases hsigners
          rfl
    rw [signersOf_ofNumber]
    exact toNat_weightOf_claimants hrep
  · intro cause hverify
    rw [hruling] at hverify
    rcases ruling_error hverify with ⟨-, h⟩ | h <;> cases h
  · intro hvalid e hverify
    rw [hruling] at hverify
    rcases ruling_error hverify with ⟨hinvalid, -⟩ | h
    · rw [hinvalid] at hvalid
      cases hvalid
    · exact h

/-- What is accepted against the canonical set of a snapshot is attested by keys that are registered in
it, and the validators under these keys have the quorum of all stake. -/
theorem accepted_by_keys (hset : CanonicalSet.ofSnapshot snapshot = .ok set)
    (hok : a.verify S message set quorum = .ok ()) :
    ∃ keys ≠ [], keys.Nodup ∧ (∀ key ∈ keys, ∃ v ∈ snapshot, v.key = some key) ∧
      snapshot.weight * quorum.num.toNat ≤ (snapshot.under keys).weight * quorum.den.toNat ∧
      S.isSignature ⟨a.signature⟩ ∧ S.attests keys message ⟨a.signature⟩ := by
  have hrep := CanonicalSet.represents_of_ofSnapshot hset
  rw [verify_eq_stakeRuling hrep] at hok
  obtain ⟨hheavy, hne, hsignature⟩ := stakeRuling_eq_ok hok
  obtain ⟨hread, hattests⟩ := verifySignature_eq_ok hsignature
  rw [keys_claimants] at hattests
  have hkeys : set.keysAt (a.claimed set) ≠ [] := fun hnil =>
    hne (CanonicalSet.listed_eq_nil_iff.mp (List.map_eq_nil_iff.mp hnil))
  refine ⟨_, hkeys, hrep.keysAt_nodup _, fun key hkey => hrep.mem_keysAt _ hkey, ?_, hread,
    hattests⟩
  rw [hrep.weight_under_keysAt, ← hrep.total_eq]
  exact hheavy

end Attestation

namespace Bls

/-- The scheme joins any keys that encode points. -/
theorem scheme_joins (h : ∀ v ∈ snapshot, ∀ key, v.key = some key → (G1.decode? key.raw).isSome) :
    scheme.Joins snapshot := by
  intro keys _ hkeys
  have hpoints : (keyPoints? keys).isSome := Outcome.isSome_mapM_iff.mpr fun key hkey => by
    obtain ⟨v, hv, hvkey⟩ := hkeys key hkey
    exact h v hv key hvkey
  obtain ⟨points, hkeyPoints⟩ := Option.isSome_iff_exists.mp hpoints
  simp [scheme, hkeyPoints]

/-- The form of the generator of the group in which public keys lie. -/
def generatorKey : PublicKey := ⟨.ofNat 48 (1 <<< 383 + G1.generator.x.val)⟩

end Bls

namespace Attestation

/-- A keyed validator with 60 of 100 parts signs, but with bytes that are no signature. -/
theorem verdict_of_unreadable_signature :
    let snapshot : Snapshot := [⟨.zero, some Bls.generatorKey, 60⟩, ⟨⟨.ofNat 20 1⟩, none, 40⟩]
    let set : CanonicalSet := ⟨[⟨Bls.generatorKey, 60, [.zero]⟩], 100⟩
    CanonicalSet.ofSnapshot snapshot = .ok set ∧ Bls.scheme.Joins snapshot ∧
      verify Bls.scheme ⟨[1], .zero _⟩ ⟨1, .zero, []⟩ set ⟨3, 5⟩ =
        .error (.parseSignature .invalidSignature) := by
  intro snapshot set
  have hset : CanonicalSet.ofSnapshot snapshot = .ok set := by decide +kernel
  have hjoin : Bls.scheme.Joins snapshot := by
    refine Bls.scheme_joins fun v hv key hkey => ?_
    have hdecodes : (Bls.G1.decode? Bls.generatorKey.raw).isSome = true := by decide +kernel
    rcases List.mem_cons.mp hv with rfl | hv
    · cases hkey
      exact hdecodes
    · cases List.mem_singleton.mp hv
      cases hkey
  refine ⟨hset, hjoin, ?_⟩
  rw [(verdict_of_ofSnapshot hset hjoin ⟨[1], .zero _⟩ ⟨1, .zero, []⟩ ⟨3, 5⟩).1]
  decide +kernel

end Attestation

end StakeGuard
