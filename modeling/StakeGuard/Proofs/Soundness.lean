import StakeGuard.Proofs.NotedLists
import StakeGuard.Proofs.StakeRefinement
import StakeGuard.Proofs.Verdict
import StakeGuard.Verifier

/-!
# Soundness of verification over a registry

Whatever a registry notes of its subnets are lists of sets that requests have built, so their weights
are positive. Main statement: a verifier over a registry accepts a message only with the quorum of the
stake of its subnet, as it stood at the last advance up to the height in question
(`Verifier.attested_of_verify`).
-/

namespace StakeGuard

namespace ValidatorSet

/-- The set is what some requests make of the empty one. -/
def Reached (s : ValidatorSet) : Prop := ∃ changes, s = empty.run changes

theorem reached_empty : Reached empty := ⟨[], rfl⟩

theorem Reached.step {s : ValidatorSet} (h : s.Reached) (change : StakeChange) :
    (s.step change).Reached := by
  obtain ⟨changes, rfl⟩ := h
  refine ⟨changes ++ [change], ?_⟩
  rw [run, run, List.foldl_append]
  rfl

/-- Every validator of a set that requests have built has some weight. -/
theorem Reached.weight_ne_zero {s : ValidatorSet} (h : s.Reached) {v : Validator}
    (hv : v ∈ s.list) : v.weight ≠ 0 := by
  obtain ⟨changes, rfl⟩ := h
  exact (Holds.run changes).weight_ne_zero_of_mem_list (StakeMap.run_wellFormed changes) hv

end ValidatorSet

namespace Registry

variable {r : Registry} {c : Chronicle}

/-- Every scope ever opened has a set that requests have built. -/
def SetsReached (r : Registry) : Prop := ∀ o ∈ r.opened, o.scope.roster.set.Reached

/-- Every list that is noted is that of a set that requests have built. -/
def ListsReached (c : Chronicle) : Prop :=
  ∀ subnet a, c subnet = some a → ∀ e ∈ a.advances, ∃ s : ValidatorSet, s.Reached ∧ e.2 = s.list

/-- Requests of whatever kind keep sets as ones that requests have built. -/
theorem listsReached_chronicle (hsets : r.SetsReached) (h : ListsReached c)
    (calls : List RegistryCall) : ListsReached (r.chronicle c calls) :=
  listsHave_chronicle ValidatorSet.reached_empty hsets h fun _ _ _ request _ _ hs => hs.step request

end Registry

namespace Verifier

variable {v : Verifier} {S : SignatureScheme} {item : AttestedMessage} {height : UInt64}
  {config : ThrottleConfig} {calls : List RegistryCall} {quorum : Quorum}

/-- An accepted message has a subnet, a snapshot and a canonical set, against which its attestation was
accepted. -/
theorem verdict_eq_ok (h : v.verdict S item height = .ok ()) :
    ∃ subnet snapshot set, v.oracle.subnetOf item.message.chain = .ok subnet ∧
      v.oracle.validatorsAt height subnet = .ok snapshot ∧
      CanonicalSet.ofSnapshot snapshot = .ok set ∧
      item.attestation.verify S item.message set v.quorum = .ok () := by
  rw [verdict] at h
  split at h
  · cases h
  · next set hset =>
    rw [canonicalSet, sourceSubnet] at hset
    cases hsubnet : v.oracle.subnetOf item.message.chain with
    | error e =>
      rw [hsubnet] at hset
      cases e <;> cases hset
    | ok subnet =>
      simp only [hsubnet] at hset
      cases hsnapshot : v.oracle.validatorsAt height subnet with
      | error e =>
        rw [hsnapshot] at hset
        cases hset
      | ok snapshot =>
        simp only [hsnapshot] at hset
        cases hcanonical : CanonicalSet.ofSnapshot snapshot with
        | error e =>
          rw [hcanonical] at hset
          cases hset
        | ok set' =>
          rw [hcanonical] at hset
          cases hset
          exact ⟨subnet, snapshot, set, rfl, hsnapshot, hcanonical, h⟩

/-- Soundness of verification, for any calls on a registry and its scopes: what is accepted for a
height is from a chain of an active subnet, and has been signed under distinct keys whose validators
had the quorum of the subnet's stake at the last advance up to that height. -/
theorem attested_of_verify
    (hmake : make ((Registry.make config).run calls).1.oracle quorum = .ok v)
    (hverify : (v.verify S item height).1 = .ok ()) :
    let r := ((Registry.make config).run calls).1
    ∃ subnet account live keys,
      r.chains.get? item.message.chain = some subnet ∧ (r.active.get? subnet).isSome ∧
      height ≤ r.height ∧
      (Registry.make config).chronicle (fun _ => none) calls subnet = some account ∧
      account.lastAdvance? height = some live ∧
      keys ≠ [] ∧ keys.Nodup ∧ (∀ key ∈ keys, ∃ w ∈ live, w.key = some key) ∧
      0 < (live.under keys).weight ∧
      live.weight * quorum.num.toNat ≤ (live.under keys).weight * quorum.den.toNat ∧
      S.isSignature ⟨item.attestation.signature⟩ ∧
      S.attests keys item.message ⟨item.attestation.signature⟩ := by
  intro r
  obtain ⟨-, -, rfl⟩ := Outcome.map_eq_ok_iff.mp hmake
  obtain ⟨subnet, live, set, hsubnet, hlive, hset, hok⟩ := verdict_eq_ok hverify
  obtain ⟨keys, hne, hnodup, hregistered, hquorum, hread, hattests⟩ :=
    Attestation.accepted_by_keys hset hok
  have hchronicled := Registry.chronicled_after (.make config) calls
  rw [← Registry.run_eq_after] at hchronicled
  obtain ⟨account, haccount, hreached, hat⟩ := hchronicled.account_of_validatorsAt hlive
  obtain ⟨key, hkey⟩ := List.exists_mem_of_ne_nil keys hne
  obtain ⟨w, hw, hwkey⟩ := hregistered key hkey
  -- a list with a validator is that of an advance: before the first one it is empty
  have hadvance := Account.lastAdvance?_of_mem hat hw
  have hpositive : w.weight ≠ 0 := by
    obtain ⟨e, he, rfl⟩ := Option.map_eq_some_iff.mp hadvance
    obtain ⟨s, hs, heq⟩ := Registry.listsReached_chronicle (r := .make config)
      (c := fun _ => none) nofun nofun calls subnet account haccount e (List.mem_of_find?_eq_some he)
    rw [heq] at hw
    exact hs.weight_ne_zero hw
  have hweight : 0 < (live.under keys).weight :=
    Snapshot.weight_pos_of_mem (Snapshot.mem_under_iff.mpr ⟨hw, key, hkey, hwkey⟩) hpositive
  exact ⟨subnet, account, live, keys, ChainMap.resolve_eq_ok_iff.mp hsubnet,
    hchronicled.active_iff.mpr (Option.isSome_of_eq_some haccount), hreached, haccount, hadvance,
    hne, hnodup, hregistered, hweight, hquorum, hread, hattests⟩

/-- A message, and the signature of its signed form under the secret key one. -/
def knownMessage : AttestedMessage where
  message := ⟨1, .zero, []⟩
  attestation := ⟨[1], .ofNat 96
    (0x85ffcdb2ae9de20121c0030e103c8e1b8c7dfcd944725d0ec4aea810ac3af350 <<< 512 +
      0x1b1943352fd43df177090f3f40104f8c06320ce65e1edb6dbd05b8b4093c7491 <<< 256 +
      0x1fd6723fa185a7bb90371f3213de8f4757d15b973248f433ba749e8249edf97c)⟩

/-- The scheme over BLS12-381, except that only the known signature is verified. -/
def knownScheme : SignatureScheme :=
  { Bls.scheme with
    verify := fun key bytes signature =>
      key = Bls.generatorKey ∧ knownMessage.message.encode = .ok bytes ∧
        signature = ⟨knownMessage.attestation.signature⟩ }

/-- The owner of the secret key one is the only validator from height five on, and has little of the
stake from height nine on. -/
def dilutingCalls : List RegistryCall :=
  [.activate primaryNetwork, .registerChain .zero primaryNetwork,
    .onScope 0 (.change (.add .zero (some Bls.generatorKey) none 60)), .advance 5,
    .onScope 0 (.change (.add ⟨.ofNat 20 1⟩ none none 900)), .advance 9]

/-- A message that a registered signer has signed is accepted by a registry after some calls. -/
theorem attested_of_known_signature :
    let r := ((Registry.make ⟨8, 4, 2⟩).run dilutingCalls).1
    let v : Verifier := ⟨r.oracle, ⟨2, 3⟩⟩
    make r.oracle ⟨2, 3⟩ = .ok v ∧ (v.verify knownScheme knownMessage 7).1 = .ok () ∧
      ∃ account live keys,
        (Registry.make ⟨8, 4, 2⟩).chronicle (fun _ => none) dilutingCalls primaryNetwork =
          some account ∧
        account.lastAdvance? 7 = some live ∧ keys ≠ [] ∧ 0 < (live.under keys).weight ∧
        knownScheme.attests keys knownMessage.message ⟨knownMessage.attestation.signature⟩ := by
  have hmake : make ((Registry.make ⟨8, 4, 2⟩).run dilutingCalls).1.oracle ⟨2, 3⟩ =
      .ok ⟨((Registry.make ⟨8, 4, 2⟩).run dilutingCalls).1.oracle, ⟨2, 3⟩⟩ :=
    Outcome.map_eq_ok_iff.mpr ⟨(), by decide +kernel, rfl⟩
  have hverify : (verify ⟨((Registry.make ⟨8, 4, 2⟩).run dilutingCalls).1.oracle, ⟨2, 3⟩⟩
      knownScheme knownMessage 7).1 = .ok () := by
    decide +kernel
  obtain ⟨subnet, account, live, keys, hsubnet, -, -, haccount, hadvance, hne, -, -, hweight, -, -,
    hattests⟩ := attested_of_verify hmake hverify
  have hprimary : ((Registry.make ⟨8, 4, 2⟩).run dilutingCalls).1.chains.get?
      knownMessage.message.chain = some primaryNetwork := by
    decide +kernel
  obtain rfl : subnet = primaryNetwork := Option.some.inj (hsubnet.symm.trans hprimary)
  exact ⟨hmake, hverify, account, live, keys, haccount, hadvance, hne, hweight, hattests⟩

end Verifier

end StakeGuard
