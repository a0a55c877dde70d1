import StakeGuard.Proofs.QuorumIntersection
import StakeGuard.Proofs.Soundness

/-!
# The stake behind an attestation

An accepted attestation names signers with a quorum of the snapshot's weight. A quorum of nothing is
nothing: where no validator of a snapshot has weight, whoever has a key in it is heard. Main statement:
the signers of an accepted attestation have stake just when the snapshot has any
(`Attestation.staked_iff_of_verify`).
-/

namespace StakeGuard

variable {S : SignatureScheme} {a : Attestation} {message : Message} {set : CanonicalSet}
  {quorum : Quorum} {snapshot : Snapshot}

namespace Attestation

/-- The exact weight of the positions in a signer set. -/
def signedWeight (set : CanonicalSet) (signers : SignerSet) : Nat :=
  ((signersOf set signers).map (·.weight.toNat)).sum

theorem signedWeight_ofNumber :
    signedWeight set (.ofNumber set.size (Bytes.toNatBE a.signers)) =
      set.weightAt (a.claimed set) := by
  rw [signedWeight, signersOf_ofNumber, sum_weight_claimants]

theorem isValid_of_verify (h : a.verify S message set quorum = .ok ()) : quorum.isValid = true := by
  rw [verify, Quorum.validate] at h
  by_contra hvalid
  rw [if_neg hvalid] at h
  cases h

/-- An accepted attestation names a signer. The signers that it names have stake if there is any in
the snapshot at all, with a key or without one, and then it is a quorum of it. -/
theorem staked_iff_of_verify (hset : CanonicalSet.ofSnapshot snapshot = .ok set)
    (hok : a.verify S message set quorum = .ok ()) :
    ∃ signers, a.signerSet set = .ok signers ∧ signersOf set signers ≠ [] ∧
      snapshot.weight * quorum.num.toNat ≤ signedWeight set signers * quorum.den.toNat ∧
      (0 < signedWeight set signers ↔ 0 < snapshot.weight) := by
  have hrep := CanonicalSet.represents_of_ofSnapshot hset
  have hvalid := isValid_of_verify hok
  have hsigners := signerSet_of_verify hok
  rw [verify_eq_stakeRuling hrep] at hok
  obtain ⟨hquorum, hne, -⟩ := stakeRuling_eq_ok hok
  have hle := hrep.weightAt_le (a.claimed set)
  rw [hrep.total_eq] at hquorum hle
  refine ⟨_, hsigners, ?_, ?_, ?_⟩
  · rw [signersOf_ofNumber]
    exact fun hnil => hne (isEmpty_claimants.mp (List.isEmpty_iff.mpr hnil))
  · rw [signedWeight_ofNumber]
    exact hquorum
  · rw [signedWeight_ofNumber]
    refine ⟨fun hpos => hpos.trans_le hle, fun hstake => Nat.pos_of_ne_zero fun hzero => ?_⟩
    have hnum : 0 < quorum.num.toNat := by
      simp only [Quorum.isValid, Bool.and_eq_true, decide_eq_true_eq] at hvalid
      exact Nat.pos_of_ne_zero fun hnum => hvalid.1.2 (UInt64.toNat_inj.mp hnum)
    rw [hzero, Nat.zero_mul] at hquorum
    exact absurd (Nat.mul_pos hstake hnum) (Nat.not_lt.mpr hquorum)

/-- Two of three signers answer for three fifths of all stake. -/
theorem staked_of_low_attestation :
    CanonicalSet.ofSnapshot triadSnapshot = .ok triadSet ∧
      lowAttestation.verify pairScheme lowMessage triadSet ⟨3, 5⟩ = .ok () ∧
      ∃ signers, lowAttestation.signerSet triadSet = .ok signers ∧
        0 < signedWeight triadSet signers := by
  have hset : CanonicalSet.ofSnapshot triadSnapshot = .ok triadSet := by decide +kernel
  have hok : lowAttestation.verify pairScheme lowMessage triadSet ⟨3, 5⟩ = .ok () := by
    decide +kernel
  obtain ⟨signers, hsigners, -, -, hstaked⟩ := staked_iff_of_verify hset hok
  exact ⟨hset, hok, signers, hsigners, hstaked.mpr (by decide +kernel)⟩

/-- A snapshot of one keyed validator without weight: its signature is a quorum of nothing. -/
theorem accepted_without_stake :
    let snapshot : Snapshot := [⟨.zero, some Bls.generatorKey, 0⟩]
    let set : CanonicalSet := ⟨[⟨Bls.generatorKey, 0, [.zero]⟩], 0⟩
    let item := Verifier.knownMessage
    CanonicalSet.ofSnapshot snapshot = .ok set ∧ Quorum.isValid ⟨2, 3⟩ = true ∧
      item.attestation.verify Verifier.knownScheme item.message set ⟨2, 3⟩ = .ok () ∧
      item.attestation.signerSet set = .ok ⟨[true]⟩ ∧ ¬0 < signedWeight set ⟨[true]⟩ := by
  refine ⟨?_, ?_, ?_, ?_, ?_⟩ <;> decide +kernel

end Attestation

end StakeGuard
