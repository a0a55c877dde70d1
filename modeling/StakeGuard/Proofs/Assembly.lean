import Mathlib.Data.List.Permutation
import StakeGuard.Proofs.QuorumIntersection
import StakeGuard.Proofs.SignerEncoding
import StakeGuard.Proofs.Soundness

/-!
# Assembling attestations

Signing and verifying meet in what an attestation encodes: the signers' positions are read back as
they were collected (`Attestation.signerSet_encode`), and the keys found there are those of the secrets
that signed, in another order. Main statement: signers who hold the keys at distinct positions, with a
quorum between them, can each sign, and what is assembled of their signatures is accepted
(`Attestation.verify_of_contributions`).
-/

namespace StakeGuard

variable {S : SignatureScheme} {a : Attestation} {message : Message} {set : CanonicalSet}
  {quorum : Quorum} {snapshot : Snapshot} {bytes : Bytes}

/-- The signatures of some bytes under some secrets add up to a signature, and it is good under the
sum of the matching keys unless that is the identity. In which order keys are added does not matter. -/
def SignatureScheme.AddsUp (S : SignatureScheme) (identity : PublicKey) (secrets : List SecretKey)
    (bytes : Bytes) : Prop :=
  ∃ joint key, S.joinSignatures? (secrets.map (S.sign · bytes)) = some joint ∧
    S.isSignature joint = true ∧
    (∀ keys, keys.Perm (secrets.map S.publicKey) → S.joinKeys? keys = some key) ∧
    (key ≠ identity → S.verify key bytes joint = true)

namespace Attestation

/-! ## Collecting signatures -/

/-- The collection holds exactly the given items. -/
structure Collects (size : Nat) (items : List (Nat × Signature)) (c : Collection) : Prop where
  size_eq : c.signers.size = size
  contains_iff : ∀ i, c.signers.contains i ↔ i ∈ items.map (·.1)
  signatures_eq : c.signatures = items.map (·.2)

theorem collects_empty (size : Nat) : Collects size [] ⟨.empty size, []⟩ where
  size_eq := SignerSet.size_empty size
  contains_iff i := by simp
  signatures_eq := rfl

/-- A position that is new and in range is collected. -/
theorem Collects.add {size : Nat} {items : List (Nat × Signature)} {c : Collection}
    (h : Collects size items c) {item : Nat × Signature} (hfresh : item.1 ∉ items.map (·.1))
    (hlt : item.1 < size) : ∃ c', c.add item = .ok c' ∧ Collects size (items ++ [item]) c' := by
  have habsent : ¬c.signers.contains item.1 = true := (h.contains_iff item.1).not.mpr hfresh
  obtain ⟨signers, hinsert, hsize, hcontains⟩ :=
    SignerSet.exists_insert (h.size_eq.symm ▸ hlt : item.1 < c.signers.size)
  refine ⟨⟨signers, c.signatures ++ [item.2]⟩, ?_, hsize.trans h.size_eq, fun i => ?_, ?_⟩
  · rw [Collection.add, if_neg habsent, hinsert]
  · rw [hcontains, h.contains_iff, List.map_append, List.mem_append, List.map_singleton,
      List.mem_singleton]
  · rw [h.signatures_eq, List.map_append, List.map_singleton]

/-- So are distinct positions in range, one after the other: the invariant of the collection, over the
items that are left. -/
theorem Collects.addAll {size : Nat} {seen items : List (Nat × Signature)} {c : Collection}
    (h : Collects size seen c) (hnodup : ((seen ++ items).map (·.1)).Nodup)
    (hlt : ∀ item ∈ items, item.1 < size) :
    ∃ c', items.foldlM Collection.add c = .ok c' ∧ Collects size (seen ++ items) c' := by
  induction items generalizing seen c with
  | nil => exact ⟨c, rfl, by rwa [List.append_nil]⟩
  | cons item rest ih =>
    have hfresh : item.1 ∉ seen.map (·.1) := by
      rw [List.map_append, List.map_cons] at hnodup
      exact fun hmem => List.disjoint_of_nodup_append hnodup hmem List.mem_cons_self
    obtain ⟨c₁, hadd, hcollects⟩ := h.add hfresh (hlt item List.mem_cons_self)
    rw [List.append_cons] at hnodup ⊢
    obtain ⟨c', hrest, hcollects'⟩ :=
      ih hcollects hnodup fun i hi => hlt i (List.mem_cons_of_mem _ hi)
    refine ⟨c', ?_, hcollects'⟩
    rw [List.foldlM_cons, hadd]
    exact hrest

/-- Signatures of distinct positions in range that can be joined are assembled into an attestation of
just these positions. -/
theorem exists_aggregate {items : List (Nat × Signature)} {joint : Signature} (hne : items ≠ [])
    (hnodup : (items.map (·.1)).Nodup) (hlt : ∀ item ∈ items, item.1 < set.size)
    (hjoin : S.joinSignatures? (items.map (·.2)) = some joint) :
    ∃ signers : SignerSet, aggregate S set items = .ok ⟨signers.encode, joint.raw⟩ ∧
      signers.size = set.size ∧ ∀ i, signers.contains i ↔ i ∈ items.map (·.1) := by
  obtain ⟨c, hfold, hcollects⟩ := (collects_empty set.size).addAll hnodup hlt
  have hsignatures : ¬(items.map (·.2)).isEmpty = true := by simpa using hne
  refine ⟨c.signers, ?_, hcollects.size_eq, hcollects.contains_iff⟩
  rw [aggregate, hfold]
  simp only [hcollects.signatures_eq, List.nil_append, if_neg hsignatures,
    SignatureScheme.aggregateSignatures, hjoin]

/-! ## Reading signers back -/

/-- The signer set of an attestation is read back as it was encoded. -/
theorem signerSet_encode {signers : SignerSet} (h : signers.size = set.size)
    (signature : FixedBytes signatureLength) :
    signerSet ⟨signers.encode, signature⟩ set = .ok signers := by
  rw [signerSet, ← h, SignerSet.decode_encode]

theorem mem_claimed_encode {signers : SignerSet} {signature : FixedBytes signatureLength}
    {i : Fin set.size} :
    i ∈ claimed ⟨signers.encode, signature⟩ set ↔ signers.contains i := by
  simp [claimed, SignerSet.testBit_toNatBE_encode]

theorem listed_toFinset_perm {positions : List (Fin set.size)} (h : positions.Nodup) :
    (set.listed positions.toFinset).Perm positions := by
  refine (List.perm_ext_iff_of_nodup ((List.nodup_finRange _).filter _) h).mpr fun i => ?_
  simp

/-! ## Verifying what was assembled -/

/-- Where the signers make a quorum, the verdict is that on keys and signature. -/
theorem verify_eq_verifySignature (h : set.Represents snapshot) (hvalid : quorum.isValid = true)
    {signers : SignerSet} (hsigners : a.signerSet set = .ok signers)
    (hquorum : set.totalWeight.toNat * quorum.num.toNat ≤
      set.weightAt (a.claimed set) * quorum.den.toNat)
    (hne : a.claimed set ≠ ∅) :
    a.verify S message set quorum = a.verifySignature S message (a.claimants set) := by
  have hclaimants : ¬(a.claimants set).isEmpty = true := isEmpty_claimants.not.mpr hne
  rw [verify, Quorum.validate, if_pos hvalid, hsigners, eq_ofNumber_of_signerSet hsigners]
  simp only [signersOf_ofNumber, Quorum.checkWeight, toNat_weightOf_claimants h,
    if_neg (Nat.not_lt.mpr hquorum), if_neg hclaimants, gt_iff_lt]

theorem verifySignature_eq_ok_of_key {signers : List CanonicalValidator} {key : PublicKey}
    (hne : signers ≠ []) (hread : S.isSignature ⟨a.signature⟩ = true)
    (hkey : S.joinKeys? (signers.map (·.key)) = some key) (hencode : message.encode = .ok bytes)
    (hverify : S.verify key bytes ⟨a.signature⟩ = true) :
    a.verifySignature S message signers = .ok () := by
  have hkeys : ¬(signers.map (·.key)).isEmpty = true := by simpa using hne
  simp only [verifySignature, SignatureScheme.readSignature, if_pos hread,
    SignatureScheme.aggregateKeys, if_neg hkeys, hkey, hencode, if_pos hverify]

/-! ## Contributions -/

/-- A position of a canonical set, and a signer who holds the secret of the key there. -/
structure Contribution (S : SignatureScheme) (set : CanonicalSet) where
  position : Fin set.size
  signer : Signer
  holds : S.publicKey signer.secret = (set.signer position).key

namespace Contribution

/-- The signer's signature of a message, tagged with the position. -/
def sign (c : Contribution S set) (message : Message) :
    Except AttestationError (Nat × Signature) :=
  (c.signer.sign S message).map fun signature => (c.position.val, signature)

/-- The positions of some contributions. -/
def positions (parts : List (Contribution S set)) : Finset (Fin set.size) :=
  (parts.map (·.position)).toFinset

variable {parts : List (Contribution S set)}

theorem sign_eq_ok {c : Contribution S set} (hnetwork : c.signer.network = message.network)
    (hchain : c.signer.chain = message.chain) (hencode : message.encode = .ok bytes) :
    c.sign message = .ok (c.position.val, S.sign c.signer.secret bytes) := by
  simp only [sign, Signer.sign, hnetwork, hchain, ne_eq, not_true_eq_false, if_false, hencode]
  rfl

/-- The keys at the positions, ascending, are those of the secrets in another order. -/
theorem keysAt_perm (h : (parts.map (·.position)).Nodup) :
    (set.keysAt (positions parts)).Perm ((parts.map (·.signer.secret)).map S.publicKey) := by
  have hperm := (listed_toFinset_perm h).map fun i => (set.signer i).key
  rw [List.map_map] at hperm ⊢
  have hholds : parts.map ((fun i => (set.signer i).key) ∘ (·.position)) =
      parts.map (S.publicKey ∘ (·.signer.secret)) :=
    List.map_congr_left fun c _ => c.holds.symm
  rwa [hholds] at hperm

theorem weightAt_positions (h : (parts.map (·.position)).Nodup) :
    set.weightAt (positions parts) =
      (parts.map fun c => (set.signer c.position).weight.toNat).sum := by
  rw [CanonicalSet.weightAt, positions, List.sum_toFinset _ h, List.map_map]
  rfl

theorem positions_ne_empty (h : parts ≠ []) : positions parts ≠ ∅ := by
  rw [positions, ne_eq, List.toFinset_eq_empty_iff, List.map_eq_nil_iff]
  exact h

/-- Signatures of distinct positions that can be joined are assembled, and the signers are those. -/
theorem exists_assembled {joint : Signature} (hne : parts ≠ [])
    (hdistinct : (parts.map (·.position)).Nodup)
    (hjoin : S.joinSignatures? ((parts.map (·.signer.secret)).map (S.sign · bytes)) = some joint) :
    ∃ signers : SignerSet,
      aggregate S set (parts.map fun c => (c.position.val, S.sign c.signer.secret bytes)) =
        .ok ⟨signers.encode, joint.raw⟩ ∧
      signers.size = set.size ∧ ∀ i, signers.contains i ↔ ∃ c ∈ parts, c.position.val = i := by
  set items := parts.map fun c => (c.position.val, S.sign c.signer.secret bytes) with hitems
  have hfst : items.map (·.1) = (parts.map (·.position)).map Fin.val := by
    rw [hitems, List.map_map, List.map_map]
    rfl
  have hsnd : items.map (·.2) = (parts.map (·.signer.secret)).map (S.sign · bytes) := by
    rw [hitems, List.map_map, List.map_map]
    rfl
  have hlt : ∀ item ∈ items, item.1 < set.size := by
    intro item hitem
    obtain ⟨c, -, rfl⟩ := List.mem_map.mp hitem
    exact c.position.isLt
  obtain ⟨signers, haggregate, hsize, hcontains⟩ :=
    exists_aggregate (S := S) (List.map_eq_nil_iff.not.mpr hne)
      (hfst ▸ hdistinct.map Fin.val_injective) hlt (hsnd ▸ hjoin)
  refine ⟨signers, haggregate, hsize, fun i => ?_⟩
  rw [hcontains, hfst, List.map_map]
  exact List.mem_map

theorem claimed_eq_positions {signers : SignerSet} {signature : FixedBytes signatureLength}
    (h : ∀ i, signers.contains i ↔ ∃ c ∈ parts, c.position.val = i) :
    claimed ⟨signers.encode, signature⟩ set = positions parts := by
  ext i
  rw [mem_claimed_encode, h, positions, List.mem_toFinset, List.mem_map]
  simp only [Fin.val_inj]

/-- What claims the positions of contributions with a quorum is judged by its signature under the sum
of their keys. -/
theorem verify_eq_ok_of_claimed {key : PublicKey} (h : set.Represents snapshot) (hne : parts ≠ [])
    (hdistinct : (parts.map (·.position)).Nodup) {signers : SignerSet}
    (hsigners : a.signerSet set = .ok signers) (hclaimed : a.claimed set = positions parts)
    (hvalid : quorum.isValid = true)
    (hquorum : set.totalWeight.toNat * quorum.num.toNat ≤
      (parts.map fun c => (set.signer c.position).weight.toNat).sum * quorum.den.toNat)
    (hread : S.isSignature ⟨a.signature⟩ = true) (hencode : message.encode = .ok bytes)
    (hkey : S.joinKeys? (set.keysAt (positions parts)) = some key)
    (hverify : S.verify key bytes ⟨a.signature⟩ = true) :
    a.verify S message set quorum = .ok () := by
  have hsome : a.claimed set ≠ ∅ := hclaimed ▸ positions_ne_empty hne
  rw [← weightAt_positions hdistinct, ← hclaimed] at hquorum
  rw [← hclaimed, ← keys_claimants] at hkey
  rw [verify_eq_verifySignature h hvalid hsigners hquorum hsome]
  refine verifySignature_eq_ok_of_key ?_ hread hkey hencode hverify
  exact fun hnil => hsome (isEmpty_claimants.mp (List.isEmpty_iff.mpr hnil))

end Contribution

/-- **Honest attestations verify.** Signers of one chain and network who hold the keys at distinct
positions can each sign a message from there. What is assembled of their signatures, in any order,
names exactly their positions, and it is accepted by every quorum that their weight meets unless their
keys sum to the identity. -/
theorem verify_of_contributions {identity : PublicKey} {parts : List (Contribution S set)}
    (hset : CanonicalSet.ofSnapshot snapshot = .ok set) (hne : parts ≠ [])
    (hdistinct : (parts.map (·.position)).Nodup)
    (hsource : ∀ c ∈ parts, c.signer.network = message.network ∧ c.signer.chain = message.chain)
    (hpayload : message.payload.length < 2 ^ 32) (hvalid : quorum.isValid = true)
    (hquorum : set.totalWeight.toNat * quorum.num.toNat ≤
      (parts.map fun c => (set.signer c.position).weight.toNat).sum * quorum.den.toNat)
    (hadds : ∀ bytes, message.encode = .ok bytes →
      S.AddsUp identity (parts.map (·.signer.secret)) bytes) :
    ∃ items a signers key, parts.mapM (·.sign message) = .ok items ∧
      aggregate S set items = .ok a ∧ a.signerSet set = .ok signers ∧
      (∀ i, signers.contains i ↔ ∃ c ∈ parts, c.position.val = i) ∧
      S.joinKeys? (parts.map fun c => (set.signer c.position).key) = some key ∧
      (key ≠ identity → a.verify S message set quorum = .ok ()) := by
  have h := CanonicalSet.represents_of_ofSnapshot hset
  obtain ⟨bytes, hencode⟩ : ∃ bytes, message.encode = .ok bytes := ⟨_, if_pos hpayload⟩
  obtain ⟨joint, key, hjoin, hread, hkeys, hverify⟩ := hadds bytes hencode
  have hsign : parts.mapM (·.sign message) =
      .ok (parts.map fun c => (c.position.val, S.sign c.signer.secret bytes)) :=
    Outcome.mapM_eq_ok fun c hc =>
      Contribution.sign_eq_ok (hsource c hc).1 (hsource c hc).2 hencode
  obtain ⟨signers, haggregate, hsize, hcontains⟩ :=
    Contribution.exists_assembled hne hdistinct hjoin
  have hsigners := signerSet_encode hsize joint.raw
  have hmatching : parts.map (fun c => (set.signer c.position).key) =
      (parts.map (·.signer.secret)).map S.publicKey := by
    rw [List.map_map]
    exact List.map_congr_left fun c _ => c.holds.symm
  refine ⟨_, _, signers, key, hsign, haggregate, hsigners, hcontains,
    hkeys _ (List.Perm.of_eq hmatching), fun hidentity => ?_⟩
  exact Contribution.verify_eq_ok_of_claimed h hne hdistinct hsigners
    (Contribution.claimed_eq_positions hcontains) hvalid hquorum hread hencode
    (hkeys _ (Contribution.keysAt_perm hdistinct)) (hverify hidentity)

/-- The scheme that verifies the joint signature of the low message, with the signatures of the first
two secrets that it is the sum of. -/
def pairSigningScheme : SignatureScheme :=
  { pairScheme with
    sign := fun secret _ =>
      if secret = ⟨.ofNat 32 1⟩ then ⟨Verifier.knownMessage.attestation.signature⟩
      else
        ⟨.ofNat 96
          (0xab9c4b44770c61ae6b9e80c998437141a3ae0eeea8178c63cd957a76d2615a04 <<< 512 +
            0xc228bd8c27fc15f62fc538e7746453c602d642767473cf8fac13d9c49b63200a <<< 256 +
            0x817fa6fcc4a2a859c801ab6425caf4fa6d06bfdb9c7d9df372348d35ff1147a9)⟩ }

/-- The second signer of the triad, then the first. -/
def lowSigners : List (Contribution pairSigningScheme triadSet) :=
  [⟨⟨1, by decide⟩, ⟨⟨.ofNat 32 2⟩, 1, .zero⟩, rfl⟩,
    ⟨⟨0, by decide⟩, ⟨⟨.ofNat 32 1⟩, 1, .zero⟩, rfl⟩]

/-- Two of three signers, who have 60 of 100 between them, are heard by a quorum of three fifths. -/
theorem accepted_of_low_signers :
    CanonicalSet.ofSnapshot triadSnapshot = .ok triadSet ∧
      ∃ items a signers, lowSigners.mapM (·.sign lowMessage) = .ok items ∧
        aggregate pairSigningScheme triadSet items = .ok a ∧
        a.signerSet triadSet = .ok signers ∧ signers.contains 0 ∧ signers.contains 1 ∧
        ¬signers.contains 2 ∧ a.verify pairSigningScheme lowMessage triadSet ⟨3, 5⟩ = .ok () := by
  have hset : CanonicalSet.ofSnapshot triadSnapshot = .ok triadSet := by decide +kernel
  have hvalid : Quorum.isValid ⟨3, 5⟩ = true := by decide
  have hjoin : pairSigningScheme.joinSignatures?
      ((lowSigners.map (·.signer.secret)).map (pairSigningScheme.sign · [])) =
        some ⟨lowAttestation.signature⟩ := by
    decide +kernel
  have hread : pairSigningScheme.isSignature ⟨lowAttestation.signature⟩ = true := by decide +kernel
  have hkeys : pairSigningScheme.joinKeys? [keyOf 2, keyOf 1] = some (keyOf 3) := by decide +kernel
  have hkeys' : pairSigningScheme.joinKeys? [keyOf 1, keyOf 2] = some (keyOf 3) := by decide +kernel
  have hadds : ∀ bytes, lowMessage.encode = .ok bytes →
      pairSigningScheme.AddsUp ⟨Bls.G1.encode .infinity⟩ (lowSigners.map (·.signer.secret)) bytes := by
    refine fun bytes hbytes => ⟨_, keyOf 3, hjoin, hread, fun keys hperm => ?_, fun _ => ?_⟩
    · rcases List.perm_pair.mp hperm with rfl | rfl
      · exact hkeys
      · exact hkeys'
    · simp [pairSigningScheme, pairScheme, hbytes]
  obtain ⟨items, a, signers, key, hsign, haggregate, hsigners, hcontains, hkey, hverify⟩ :=
    verify_of_contributions hset (by decide) (by decide) (by decide) (by decide) hvalid
      (by decide +kernel) hadds
  have hidentity : key ≠ ⟨Bls.G1.encode .infinity⟩ := by
    obtain rfl : key = keyOf 3 := Option.some.inj (hkey.symm.trans hkeys)
    decide +kernel
  refine ⟨hset, items, a, signers, hsign, haggregate, hsigners, ?_, ?_, ?_, hverify hidentity⟩
  · exact (hcontains 0).mpr (by decide)
  · exact (hcontains 1).mpr (by decide)
  · exact (hcontains 2).not.mpr (by decide)

end Attestation

end StakeGuard
