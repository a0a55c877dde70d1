import StakeGuard.Proofs.Verdict

/-!
# Quorums intersect

Two sets of positions weigh no more together than all stake and what they share
(`CanonicalSet.Represents.weightAt_add_weightAt_le`), so two majorities must share something. Main
statement: two attestations that are accepted against one canonical set with a quorum of more than a
half name a signer in common, and their common signers have at least the stake by which twice the
quorum exceeds the whole (`Attestation.common_signers_of_accepted`).
-/

namespace StakeGuard

variable {S : SignatureScheme} {a a' : Attestation} {message message' : Message}
  {set : CanonicalSet} {quorum : Quorum} {snapshot : Snapshot}

namespace CanonicalSet

/-- The positions that two signer sets share. -/
def common (set : CanonicalSet) (signers signers' : SignerSet) : Finset (Fin set.size) :=
  Finset.univ.filter fun i => signers.contains i ∧ signers'.contains i

/-- Two sets of positions weigh no more than all stake and what is common to both. -/
theorem Represents.weightAt_add_weightAt_le (h : set.Represents snapshot)
    (positions positions' : Finset (Fin set.size)) :
    set.weightAt positions + set.weightAt positions' ≤
      snapshot.weight + set.weightAt (positions ∩ positions') := by
  have hunion := h.weightAt_le (positions ∪ positions')
  have hboth : set.weightAt (positions ∪ positions') + set.weightAt (positions ∩ positions') =
      set.weightAt positions + set.weightAt positions' := Finset.sum_union_inter
  have htotal := h.total_eq
  omega

end CanonicalSet

namespace Quorum

/-- Two weights that are each a quorum of a total, and exceed it together by no more than what they
have in common, have in common the part by which twice the quorum exceeds the whole. -/
theorem le_common_of_quorums {quorum : Quorum} {total signed signed' common : Nat}
    (hquorum : total * quorum.num.toNat ≤ signed * quorum.den.toNat)
    (hquorum' : total * quorum.num.toNat ≤ signed' * quorum.den.toNat)
    (hcommon : signed + signed' ≤ total + common) :
    total * (2 * quorum.num.toNat - quorum.den.toNat) ≤ common * quorum.den.toNat := by
  have hsum : (signed + signed') * quorum.den.toNat ≤ (total + common) * quorum.den.toNat :=
    Nat.mul_le_mul_right _ hcommon
  rw [Nat.add_mul, Nat.add_mul] at hsum
  have htwice : total * (2 * quorum.num.toNat) = 2 * (total * quorum.num.toNat) :=
    Nat.mul_left_comm ..
  rw [Nat.mul_sub, htwice]
  omega

end Quorum

namespace Attestation

theorem signerSet_of_verify (h : a.verify S message set quorum = .ok ()) :
    a.signerSet set = .ok (.ofNumber set.size (Bytes.toNatBE a.signers)) := by
  unfold verify at h
  split at h
  · cases h
  split at h
  · cases h
  next signers hsigners => rw [hsigners, eq_ofNumber_of_signerSet hsigners]

/-- The common signers of two attestations are the positions that both claim. -/
theorem common_ofNumber :
    set.common (.ofNumber set.size (Bytes.toNatBE a.signers))
      (.ofNumber set.size (Bytes.toNatBE a'.signers)) = a.claimed set ∩ a'.claimed set := by
  ext i
  simp [CanonicalSet.common, claimed, SignerSet.contains_ofNumber]

/-- **Quorums intersect.** Of a snapshot with any stake at all, two attestations that a quorum of more
than a half accepts, of one message or of two, claim signer sets that share a position; the stake at
the shared positions is at least the part by which twice the quorum exceeds all stake. -/
theorem common_signers_of_accepted (hset : CanonicalSet.ofSnapshot snapshot = .ok set)
    (hstake : 0 < snapshot.weight) (hmajority : quorum.den.toNat < 2 * quorum.num.toNat)
    (hok : a.verify S message set quorum = .ok ())
    (hok' : a'.verify S message' set quorum = .ok ()) :
    ∃ signers signers', a.signerSet set = .ok signers ∧ a'.signerSet set = .ok signers' ∧
      (set.common signers signers').Nonempty ∧
      snapshot.weight * (2 * quorum.num.toNat - quorum.den.toNat) ≤
        set.weightAt (set.common signers signers') * quorum.den.toNat := by
  have h := CanonicalSet.represents_of_ofSnapshot hset
  have hsigners := signerSet_of_verify hok
  have hsigners' := signerSet_of_verify hok'
  rw [verify_eq_stakeRuling h] at hok hok'
  obtain ⟨hquorum, -, -⟩ := stakeRuling_eq_ok hok
  obtain ⟨hquorum', -, -⟩ := stakeRuling_eq_ok hok'
  rw [h.total_eq] at hquorum hquorum'
  have hshared := Quorum.le_common_of_quorums hquorum hquorum'
    (h.weightAt_add_weightAt_le (a.claimed set) (a'.claimed set))
  refine ⟨_, _, hsigners, hsigners', ?_, ?_⟩
  · rw [common_ofNumber, Finset.nonempty_iff_ne_empty]
    intro hempty
    have hpositive : 0 < snapshot.weight * (2 * quorum.num.toNat - quorum.den.toNat) :=
      Nat.mul_pos hstake (Nat.sub_pos_of_lt hmajority)
    rw [hempty] at hshared
    have hnothing : set.weightAt ∅ = 0 := Finset.sum_empty
    rw [hnothing, Nat.zero_mul] at hshared
    omega
  · rw [common_ofNumber]
    exact hshared

/-- The public key that belongs to a number as secret key. -/
def keyOf (secret : Nat) : PublicKey := Bls.scheme.publicKey ⟨.ofNat 32 secret⟩

/-- A message, signed by the first two of three signers. -/
def lowMessage : Message := ⟨1, .zero, []⟩

/-- The first two signers of the triad sign the low message. -/
def lowAttestation : Attestation := ⟨[3], .ofNat 96
  (0xa3c6ee0f3f230c26ebfa298b5c7102bf1509a875b3b2077fa8b0309e046928e1 <<< 512 +
    0xdbd2de26b41fbd5bc73b3601f9f8599209c7906a6c117be31b9cb4fc2272dae5 <<< 256 +
    0xa71991089215ad7ebfad887504c5e698b681a685acb079ad574676119642601a)⟩

/-- Another message, signed by the last two. -/
def highMessage : Message := ⟨1, .zero, [7]⟩

/-- The last two sign the high message. -/
def highAttestation : Attestation := ⟨[6], .ofNat 96
  (0xb4907fa0b7df314001472097186a0f25b22a56490031fad8d9de4ce3b341bb14 <<< 512 +
    0x514323ad69dd7d107b0650c8d55150930ce830fbcb112a7252e3897cb9793efb <<< 256 +
    0x98d007ecf705f0a6134ec9f41f7a40f35d75d2028675470283d96a9a9e23ccac)⟩

/-- The scheme over BLS12-381, except that it only verifies these two signatures. -/
def pairScheme : SignatureScheme :=
  { Bls.scheme with
    verify := fun key bytes signature =>
      key = keyOf 3 ∧ lowMessage.encode = .ok bytes ∧ signature = ⟨lowAttestation.signature⟩ ∨
      key = keyOf 6 ∧ highMessage.encode = .ok bytes ∧ signature = ⟨highAttestation.signature⟩ }

/-- Three signers with equal stake, and a tenth of the stake without a key. -/
def triadSnapshot : Snapshot :=
  [⟨.zero, some (keyOf 4), 30⟩, ⟨⟨.ofNat 20 1⟩, some (keyOf 1), 30⟩,
    ⟨⟨.ofNat 20 2⟩, none, 10⟩, ⟨⟨.ofNat 20 3⟩, some (keyOf 2), 30⟩]

/-- The canonical set of the triad. -/
def triadSet : CanonicalSet where
  validators := [⟨keyOf 1, 30, [⟨.ofNat 20 1⟩]⟩, ⟨keyOf 2, 30, [⟨.ofNat 20 3⟩]⟩,
    ⟨keyOf 4, 30, [.zero]⟩]
  totalWeight := 100

/-- With a quorum of three fifths the signer in the middle is in both; a fifth of the stake must be. -/
theorem common_signers_of_triad :
    CanonicalSet.ofSnapshot triadSnapshot = .ok triadSet ∧
      lowAttestation.verify pairScheme lowMessage triadSet ⟨3, 5⟩ = .ok () ∧
      highAttestation.verify pairScheme highMessage triadSet ⟨3, 5⟩ = .ok () ∧
      ∃ signers signers', lowAttestation.signerSet triadSet = .ok signers ∧
        highAttestation.signerSet triadSet = .ok signers' ∧
        (triadSet.common signers signers').Nonempty ∧
        100 ≤ triadSet.weightAt (triadSet.common signers signers') * 5 := by
  have hset : CanonicalSet.ofSnapshot triadSnapshot = .ok triadSet := by decide +kernel
  have hlow : lowAttestation.verify pairScheme lowMessage triadSet ⟨3, 5⟩ = .ok () := by
    decide +kernel
  have hhigh : highAttestation.verify pairScheme highMessage triadSet ⟨3, 5⟩ = .ok () := by
    decide +kernel
  exact ⟨hset, hlow, hhigh,
    common_signers_of_accepted hset (by decide +kernel) (by decide +kernel) hlow hhigh⟩

end Attestation

end StakeGuard
