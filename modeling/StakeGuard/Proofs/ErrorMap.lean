import StakeGuard.Proofs.HistoryRefinement
import StakeGuard.Proofs.KeyOrigin
import StakeGuard.Proofs.Soundness

/-!
# The error map of a verifier over a registry

A message is judged by the first of four things: its chain is not mapped, the height is not reached,
the subnet cannot answer for it, or there are validators to judge by (`Verifier.Judged`). Lists that a
registry notes always have a canonical set, since they are those of sets that requests have built. Main
statement: every error of a verifier over a registry and its class are told by these four, none is due
to the canonical set or to joining keys, and only calling the verification off changes this
(`Verifier.verdict_maps`).
-/

namespace StakeGuard

/-- Any of the keys, if there are some, can be joined. -/
def SignatureScheme.JoinsAll (S : SignatureScheme) (P : PublicKey → Prop) : Prop :=
  ∀ keys ≠ [], (∀ key ∈ keys, P key) → (S.joinKeys? keys).isSome

/-! ## Four things that decide -/

/-- A subnet has no validators to show at a height: it is not active, or was activated later. -/
def Registry.Unavailable (r : Registry) (c : Chronicle) (subnet : SubnetId) (height : UInt64) : Prop :=
  r.active.get? subnet = none ∨ ∃ a, c subnet = some a ∧ height < a.since

namespace Verifier

variable {r : Registry} {c : Chronicle} {v : Verifier} {S : SignatureScheme} {item : AttestedMessage}
  {P : PublicKey → Prop} {height : UInt64} {subnet : SubnetId} {quorum : Quorum}
  {config : ThrottleConfig} {calls : List RegistryCall}

/-- The verdict on a message of a chain at a height, by the first thing that decides it; `judge` is
the verdict against a canonical set. -/
inductive Judged (r : Registry) (c : Chronicle) (chain : ChainId) (height : UInt64)
    (judge : CanonicalSet → Except AttestationError Unit) : Except AttestationError Unit → Prop
  | unmapped (hchain : r.chains.get? chain = none) :
    Judged r c chain height judge (.error (.unknownSource chain))
  | unreached {subnet : SubnetId} (hchain : r.chains.get? chain = some subnet)
    (hheight : r.height < height) :
    Judged r c chain height judge (.error (.oracle (.heightNotReached height r.height)))
  | unavailable {subnet : SubnetId} (hchain : r.chains.get? chain = some subnet)
    (hheight : height ≤ r.height) (hsubnet : r.Unavailable c subnet height) :
    Judged r c chain height judge (.error (.oracle (.unknownSubnet subnet)))
  | available {subnet : SubnetId} {a : Account} {set : CanonicalSet}
    (hchain : r.chains.get? chain = some subnet) (hheight : height ≤ r.height)
    (ha : c subnet = some a) (hsince : a.since ≤ height)
    (hlist : r.oracle.validatorsAt height subnet = .ok ((a.lastAdvance? height).getD []))
    (hset : CanonicalSet.ofSnapshot ((a.lastAdvance? height).getD []) = .ok set)
    (hjudge : ∀ e, judge set = .error e → e.errorClass = .integrity) :
    Judged r c chain height judge (judge set)

/-- Where the oracle knows the validators, the verdict is that against their canonical set. -/
theorem verdict_of_validatorsAt {snapshot : Snapshot} {set : CanonicalSet}
    (hsubnet : v.oracle.subnetOf item.message.chain = .ok subnet)
    (hlist : v.oracle.validatorsAt height subnet = .ok snapshot)
    (hset : CanonicalSet.ofSnapshot snapshot = .ok set) :
    v.verdict S item height = item.attestation.verify S item.message set v.quorum := by
  simp only [verdict, canonicalSet, sourceSubnet, hsubnet, hlist, hset]

theorem verdict_of_refused {cause : OracleError}
    (hsubnet : v.oracle.subnetOf item.message.chain = .ok subnet)
    (hlist : v.oracle.validatorsAt height subnet = .error cause) :
    v.verdict S item height = .error (.oracle cause) := by
  simp only [verdict, canonicalSet, sourceSubnet, hsubnet, hlist]

theorem verdict_of_unmapped (hchain : r.chains.get? item.message.chain = none) :
    verdict ⟨r.oracle, quorum⟩ S item height = .error (.unknownSource item.message.chain) := by
  simp only [verdict, canonicalSet, sourceSubnet, Registry.oracle, ChainMap.resolve, hchain]

/-- Against the canonical set of a list whose keys can be joined, a valid quorum leaves no error but
the sender's. -/
theorem errorClass_of_verify {snapshot : Snapshot} {set : CanonicalSet}
    (hset : CanonicalSet.ofSnapshot snapshot = .ok set) (hjoin : S.Joins snapshot)
    (hvalid : quorum.isValid = true) {a : Attestation} {message : Message} {e : AttestationError}
    (h : a.verify S message set quorum = .error e) : e.errorClass = .integrity := by
  rw [Attestation.verify_eq_ruling (CanonicalSet.represents_of_ofSnapshot hset) hjoin] at h
  rcases Attestation.ruling_error h with ⟨hinvalid, -⟩ | hclass
  · rw [hvalid] at hinvalid
    cases hinvalid
  · exact hclass

/-- Over a registry every verdict is due to one of the four. -/
theorem judged (hc : Registry.Chronicled r c) (hvalid : quorum.isValid = true)
    (hlists : Registry.ListsHave (ValidatorSet.BuiltOf P) c) (hjoin : S.JoinsAll P) :
    Judged r c item.message.chain height
      (fun set => item.attestation.verify S item.message set quorum)
      (verdict ⟨r.oracle, quorum⟩ S item height) := by
  cases hchain : r.chains.get? item.message.chain with
  | none =>
    rw [verdict_of_unmapped hchain]
    exact .unmapped hchain
  | some subnet =>
    have hsubnet : r.oracle.subnetOf item.message.chain = .ok subnet :=
      ChainMap.resolve_eq_ok_iff.mpr hchain
    have hanswer := hc.validatorsAt_eq height subnet
    rw [Chronicle.validatorsAt] at hanswer
    split at hanswer
    · next hbelow =>
      rw [verdict_of_refused hsubnet hanswer]
      exact .unreached hchain hbelow
    next hreached =>
    have hheight := UInt64.not_lt.mp hreached
    cases ha : c subnet with
    | none =>
      rw [ha] at hanswer
      rw [verdict_of_refused hsubnet hanswer]
      exact .unavailable hchain hheight (.inl (hc.account_eq_none_iff.mp ha))
    | some a =>
      simp only [ha] at hanswer
      split at hanswer
      · next hbefore =>
        rw [verdict_of_refused hsubnet hanswer]
        exact .unavailable hchain hheight (.inr ⟨a, ha, hbefore⟩)
      next hsince =>
      obtain ⟨s, hs, hlist⟩ := hlists.at? ValidatorSet.builtOf_empty ha height
      obtain ⟨set, hset⟩ := hs.exists_canonical
      have hjoins : S.Joins s.list := fun keys hne hkeys => hjoin keys hne fun key hkey => by
        obtain ⟨w, hw, hwkey⟩ := hkeys key hkey
        exact hs.key hw hwkey
      rw [← hlist] at hset hjoins
      rw [verdict_of_validatorsAt hsubnet hanswer hset]
      exact .available hchain hheight ha (UInt64.not_lt.mp hsince) hanswer hset fun e he =>
        errorClass_of_verify hset hjoins hvalid he

/-! ## The map -/

/-- What each verdict on a message of a chain at a height says, and when it is given. -/
structure Maps (r : Registry) (c : Chronicle) (chain : ChainId) (height : UInt64)
    (judge : CanonicalSet → Except AttestationError Unit) (verdict : Except AttestationError Unit) :
    Prop where
  unknownSource_iff : verdict = .error (.unknownSource chain) ↔ r.chains.get? chain = none
  heightNotReached_iff : ∀ subnet, r.chains.get? chain = some subnet →
    (verdict = .error (.oracle (.heightNotReached height r.height)) ↔ r.height < height)
  unknownSubnet_iff : ∀ subnet, r.chains.get? chain = some subnet → height ≤ r.height →
    (verdict = .error (.oracle (.unknownSubnet subnet)) ↔ r.Unavailable c subnet height)
  judged : ∀ subnet, r.chains.get? chain = some subnet → height ≤ r.height →
    ¬r.Unavailable c subnet height →
    ∃ a set, c subnet = some a ∧
      r.oracle.validatorsAt height subnet = .ok ((a.lastAdvance? height).getD []) ∧
      CanonicalSet.ofSnapshot ((a.lastAdvance? height).getD []) = .ok set ∧ verdict = judge set
  ne_canonicalization : ∀ cause, verdict ≠ .error (.canonicalization cause)
  ne_aggregation : ∀ cause, verdict ≠ .error (.aggregation cause)
  transient_iff : (∃ e, verdict = .error e ∧ e.errorClass = .transient) ↔
    (r.chains.get? chain).isSome ∧ r.height < height
  fatal_iff : (∃ e, verdict = .error e ∧ e.errorClass = .fatal) ↔
    r.chains.get? chain = none ∨ ∃ subnet, r.chains.get? chain = some subnet ∧ height ≤ r.height ∧
      r.Unavailable c subnet height

namespace Judged

variable {chain : ChainId} {judge : CanonicalSet → Except AttestationError Unit}
  {verdict : Except AttestationError Unit}

theorem not_unavailable (hc : Registry.Chronicled r c) {a : Account} (ha : c subnet = some a)
    (hsince : a.since ≤ height) : ¬r.Unavailable c subnet height := by
  rintro (hinactive | ⟨a', ha', hbefore⟩)
  · rw [← hc.account_eq_none_iff, ha] at hinactive
    cases hinactive
  · obtain rfl : a = a' := Option.some.inj (ha.symm.trans ha')
    exact UInt64.not_lt.mpr hsince hbefore

theorem error_class_iff {e : AttestationError} {kind : ErrorClass} :
    (∃ e', (.error e : Except AttestationError Unit) = .error e' ∧ e'.errorClass = kind) ↔
      e.errorClass = kind := by
  simp

/-- What the four decide is what the map says. -/
theorem maps (hc : Registry.Chronicled r c) (h : Judged r c chain height judge verdict) :
    Maps r c chain height judge verdict := by
  have hfatal : ErrorClass.fatal ≠ .transient := by decide
  have htransient : ErrorClass.transient ≠ .fatal := by decide
  have hnot_fatal : ErrorClass.fatal ≠ .integrity := by decide
  have hnot_transient : ErrorClass.transient ≠ .integrity := by decide
  cases h with
  | unmapped hchain =>
    have hnone : ∀ subnet, r.chains.get? chain ≠ some subnet := by simp [hchain]
    exact {
      unknownSource_iff := iff_of_true rfl hchain
      heightNotReached_iff := fun subnet h => absurd h (hnone subnet)
      unknownSubnet_iff := fun subnet h => absurd h (hnone subnet)
      judged := fun subnet h => absurd h (hnone subnet)
      ne_canonicalization := by simp
      ne_aggregation := by simp
      transient_iff := error_class_iff.trans (iff_of_false hfatal (by simp [hchain]))
      fatal_iff := error_class_iff.trans (iff_of_true rfl (.inl hchain)) }
  | unreached hchain hheight =>
    have hnot : ¬height ≤ r.height := UInt64.not_le.mpr hheight
    exact {
      unknownSource_iff := iff_of_false (by simp) (by simp [hchain])
      heightNotReached_iff := fun _ _ => iff_of_true rfl hheight
      unknownSubnet_iff := fun _ _ hle => absurd hle hnot
      judged := fun _ _ hle => absurd hle hnot
      ne_canonicalization := by simp
      ne_aggregation := by simp
      transient_iff := error_class_iff.trans (iff_of_true rfl ⟨by simp [hchain], hheight⟩)
      fatal_iff := error_class_iff.trans (iff_of_false htransient (by simp [hchain, hnot])) }
  | @unavailable subnet hchain hheight hsubnet =>
    have hnot : ¬r.height < height := UInt64.not_lt.mpr hheight
    exact {
      unknownSource_iff := iff_of_false (by simp) (by simp [hchain])
      heightNotReached_iff := fun _ _ => iff_of_false (by simp) hnot
      unknownSubnet_iff := fun subnet' hchain' _ => by
        obtain rfl : subnet = subnet' := Option.some.inj (hchain.symm.trans hchain')
        exact iff_of_true rfl hsubnet
      judged := fun subnet' hchain' _ hshown => by
        obtain rfl : subnet = subnet' := Option.some.inj (hchain.symm.trans hchain')
        exact absurd hsubnet hshown
      ne_canonicalization := by simp
      ne_aggregation := by simp
      transient_iff := error_class_iff.trans (iff_of_false hfatal fun h => hnot h.2)
      fatal_iff := error_class_iff.trans
        (iff_of_true rfl (.inr ⟨subnet, hchain, hheight, hsubnet⟩)) }
  | @available subnet a set hchain hheight ha hsince hlist hset hjudge =>
    have hnot : ¬r.height < height := UInt64.not_lt.mpr hheight
    have hshown := not_unavailable hc ha hsince
    have hother : ∀ e : AttestationError, e.errorClass ≠ .integrity → judge set ≠ .error e :=
      fun e he h => he (hjudge e h)
    have hclass : ∀ kind ≠ ErrorClass.integrity,
        ¬∃ e, judge set = .error e ∧ e.errorClass = kind := by
      rintro kind hkind ⟨e, he, rfl⟩
      exact hkind (hjudge e he)
    exact {
      unknownSource_iff := by simp [hchain, hother (.unknownSource chain) hnot_fatal]
      heightNotReached_iff := fun _ _ => iff_of_false (hother _ hnot_transient) hnot
      unknownSubnet_iff := fun subnet' hchain' _ => by
        obtain rfl : subnet = subnet' := Option.some.inj (hchain.symm.trans hchain')
        exact iff_of_false (hother _ hnot_fatal) hshown
      judged := fun subnet' hchain' _ _ => by
        obtain rfl : subnet = subnet' := Option.some.inj (hchain.symm.trans hchain')
        exact ⟨a, set, ha, hlist, hset, rfl⟩
      ne_canonicalization := fun _ => hother _ hnot_fatal
      ne_aggregation := fun _ => hother _ hnot_fatal
      transient_iff := iff_of_false (hclass _ hnot_transient) fun h => hnot h.2
      fatal_iff := iff_of_false (hclass _ hnot_fatal) (by simp [hchain, hshown]) }

end Judged

/-- **The error map of a verifier over a registry.** After any calls on a registry and its scopes, a
verifier with a valid quorum answers for any message, attestation and height by the first of these that
applies: the chain is not mapped, the height is not reached, the subnet is not active or was activated
after the height, and else what the attestation is worth against the canonical set of the validators at
the last advance up to the height, which always exists. No error is due to the canonical set or, where
the scheme joins whatever keys have been registered, to joining keys. The second case and no other is
an error that passes with time, and the first and the third and no other are fatal. A cancellation that
never comes changes nothing, and one that has come is the answer. -/
theorem verdict_maps
    (hmake : make ((Registry.make config).run calls).1.oracle quorum = .ok v)
    (hjoin : S.JoinsAll (RegistryCall.Registers calls)) :
    Maps ((Registry.make config).run calls).1
      ((Registry.make config).chronicle (fun _ => none) calls) item.message.chain height
      (fun set => item.attestation.verify S item.message set quorum)
      (v.verify S item height).1 ∧
    v.verifyUnlessCancelled S item height .never = v.verify S item height ∧
    (v.verifyUnlessCancelled S item height .before).1 = .error .cancelled := by
  obtain ⟨⟨⟩, hvalidate, rfl⟩ := Outcome.map_eq_ok_iff.mp hmake
  have hvalid := Quorum.validate_eq_ok_iff.mp hvalidate
  have hchronicled := Registry.chronicled_run config calls
  have hlists := Registry.listsHave_registered config calls
  exact ⟨(judged hchronicled hvalid hlists hjoin).maps hchronicled, rfl, rfl⟩

/-- The one key that is registered can be joined with itself as often as one likes. -/
theorem joinsAll_dilutingCalls : knownScheme.JoinsAll (RegistryCall.Registers dilutingCalls) := by
  have hdecodes : (Bls.G1.decode? Bls.generatorKey.raw).isSome = true := by decide +kernel
  have hjoins : Bls.scheme.Joins [⟨.zero, some Bls.generatorKey, 60⟩] :=
    Bls.scheme_joins fun v hv key hkey => by
      cases List.mem_singleton.mp hv
      cases hkey
      exact hdecodes
  intro keys hne hkeys
  refine hjoins keys hne fun key hkey => ⟨_, List.mem_singleton_self _, ?_⟩
  obtain ⟨handle, node, tx, weight, hmem⟩ := hkeys key hkey
  simp only [dilutingCalls, List.mem_cons, List.not_mem_nil, reduceCtorEq, or_false, false_or,
    RegistryCall.onScope.injEq, ScopeCall.change.injEq, StakeChange.add.injEq, Option.some.injEq,
    and_false, false_and] at hmem
  rw [hmem.2.2.1]

/-- The known message is not yet judged above height nine; from there on its signer has too little. -/
theorem verdict_maps_of_dilution :
    let r := ((Registry.make ⟨8, 4, 2⟩).run dilutingCalls).1
    let v : Verifier := ⟨r.oracle, ⟨2, 3⟩⟩
    make r.oracle ⟨2, 3⟩ = .ok v ∧
      knownScheme.JoinsAll (RegistryCall.Registers dilutingCalls) ∧
      (v.verify knownScheme knownMessage 12).1 = .error (.oracle (.heightNotReached 12 9)) ∧
      ∃ e, (v.verify knownScheme knownMessage 9).1 = .error e ∧ e.errorClass = .integrity := by
  intro r v
  have hmake : make r.oracle ⟨2, 3⟩ = .ok v :=
    Outcome.map_eq_ok_iff.mpr ⟨(), by decide +kernel, rfl⟩
  have hchain : r.chains.get? knownMessage.message.chain = some primaryNetwork := by decide +kernel
  have hheight : r.height = 9 := by decide +kernel
  have hearly : (v.verify knownScheme knownMessage 12).1 =
      .error (.oracle (.heightNotReached 12 r.height)) :=
    ((verdict_maps hmake joinsAll_dilutingCalls).1.heightNotReached_iff primaryNetwork hchain).mpr
      (by rw [hheight]; decide)
  rw [hheight] at hearly
  exact ⟨hmake, joinsAll_dilutingCalls, hearly, .insufficientWeight 60 960 2 3,
    by decide +kernel, rfl⟩

end Verifier

end StakeGuard
