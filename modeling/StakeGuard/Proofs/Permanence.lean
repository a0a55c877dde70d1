import StakeGuard.Proofs.HistoryRefinement
import StakeGuard.Proofs.Soundness

/-!
# Past verdicts are permanent

An account grows at the top only: a later advance is to a higher height, so what the account says of
the heights already reached stays as it is for as long as the subnet is active. Main statement: a
verdict for a height that has been reached is the same after any further calls that leave the subnet
of the message active and its chain where it is (`Verifier.verify_unchanged_by_calls`).
-/

namespace StakeGuard

/-- A later account says the same of all heights up to one. -/
structure Account.AgreesUpTo (height : UInt64) (earlier later : Account) : Prop where
  since_eq : later.since = earlier.since
  lastAdvance?_eq : ∀ k ≤ height, later.lastAdvance? k = earlier.lastAdvance? k

namespace Account.AgreesUpTo

variable {height height' : UInt64} {a b d : Account}

theorem refl (height : UInt64) (a : Account) : AgreesUpTo height a a := ⟨rfl, fun _ _ => rfl⟩

theorem trans (hab : AgreesUpTo height a b) (hle : height ≤ height') (hbd : AgreesUpTo height' b d) :
    AgreesUpTo height a d where
  since_eq := hbd.since_eq.trans hab.since_eq
  lastAdvance?_eq k hk := by
    rw [hbd.lastAdvance?_eq k (UInt64.le_trans hk hle), hab.lastAdvance?_eq k hk]

/-- An advance does not show at the heights below it. -/
theorem advance (a : Account) {e : UInt64 × Snapshot} (h : height < e.1) :
    AgreesUpTo height a { a with advances := e :: a.advances } where
  since_eq := rfl
  lastAdvance?_eq k hk := by
    have hbelow : ¬e.1 ≤ k := UInt64.not_le.mpr (UInt64.lt_of_le_of_lt hk h)
    rw [lastAdvance?, List.find?_cons_of_neg (by simpa using hbelow), lastAdvance?]

end Account.AgreesUpTo

namespace Registry

variable {r : Registry} {c : Chronicle} {subnet : SubnetId} {chain : ChainId} {a : Account}

/-- The height never falls. -/
theorem Chronicled.height_le_step (h : Chronicled r c) (call : RegistryCall) :
    r.height ≤ (r.step call).1.height := by
  -- every subnet sees the same heights
  cases h.turn call default with
  | rests hheight | opens hheight | closes _ hheight =>
    rw [hheight]
    exact UInt64.le_refl _
  | advances hlt => exact UInt64.le_of_lt hlt

/-- A call that does not close a subnet keeps what its account says of the heights reached. -/
theorem Chronicled.account_step (h : Chronicled r c) (ha : c subnet = some a) {call : RegistryCall}
    (hopen : call ≠ .deactivate subnet) :
    ∃ later, r.note c call subnet = some later ∧ a.AgreesUpTo r.height later := by
  cases h.turn call subnet with
  | rests _ _ _ haccount => exact ⟨a, haccount.trans ha, .refl _ a⟩
  | opens _ hinactive =>
    rw [← h.account_eq_none_iff, ha] at hinactive
    cases hinactive
  | closes hcall => exact absurd hcall hopen
  | advances hlt _ _ haccount =>
    rw [ha, Option.map_some] at haccount
    exact ⟨_, haccount, .advance a hlt⟩

/-- As long as its subnet is not deactivated, an account keeps what it says of the heights reached. -/
theorem Chronicled.account_after (h : Chronicled r c) (ha : c subnet = some a)
    {calls : List RegistryCall} (hopen : .deactivate subnet ∉ calls) :
    r.height ≤ (r.after calls).height ∧
      ∃ later, r.chronicle c calls subnet = some later ∧ a.AgreesUpTo r.height later := by
  induction calls generalizing r c a with
  | nil => exact ⟨UInt64.le_refl _, a, ha, .refl _ a⟩
  | cons call rest ih =>
    rw [List.mem_cons, not_or] at hopen
    obtain ⟨next, hnext, hagrees⟩ := h.account_step ha (Ne.symm hopen.1)
    obtain ⟨hle, later, hlater, hagrees'⟩ := ih (h.step call) hnext hopen.2
    have hstep := h.height_le_step call
    exact ⟨UInt64.le_trans hstep hle, later, hlater, hagrees.trans hstep hagrees'⟩

/-- Answers about the heights reached stay as they are while the subnet is active. -/
theorem Chronicled.validatorsAt_after (h : Chronicled r c) (hactive : (r.active.get? subnet).isSome)
    {calls : List RegistryCall} (hopen : .deactivate subnet ∉ calls) {height : UInt64}
    (hreached : height ≤ r.height) :
    (r.after calls).oracle.validatorsAt height subnet = r.oracle.validatorsAt height subnet := by
  obtain ⟨a, ha⟩ := Option.isSome_iff_exists.mp (h.active_iff.mp hactive)
  obtain ⟨hle, later, hlater, hagrees⟩ := h.account_after ha hopen
  have hnow : ¬r.height < height := UInt64.not_lt.mpr hreached
  have hthen : ¬(r.after calls).height < height :=
    UInt64.not_lt.mpr (UInt64.le_trans hreached hle)
  rw [(chronicled_after h calls).validatorsAt_eq, h.validatorsAt_eq]
  simp only [Chronicle.validatorsAt, if_neg hnow, if_neg hthen, ha, hlater, hagrees.since_eq,
    hagrees.lastAdvance?_eq height hreached]

/-- A chain stays with its subnet in a call that neither closes the subnet nor moves the chain. -/
theorem get?_chains_step_of_fixed (hchain : r.chains.get? chain = some subnet) {call : RegistryCall}
    (hopen : call ≠ .deactivate subnet)
    (hfixed : ∀ target, call = .registerChain chain target → target = subnet) :
    (r.step call).1.chains.get? chain = some subnet := by
  rw [get?_chains_step]
  cases call with
  | deactivate closed =>
    have hne : subnet ≠ closed := by
      rintro rfl
      exact hopen rfl
    simp [hchain, hne]
  | registerChain other target =>
    by_cases heq : chain = other
    · subst heq
      simp only [if_true, hfixed target rfl]
    · simp only [if_neg heq, hchain]
  | activate | advance | onScope => exact hchain

/-- A chain stays where it is as long as its subnet is active and it is not registered elsewhere. -/
theorem get?_chains_after (hchain : r.chains.get? chain = some subnet) {calls : List RegistryCall}
    (hopen : .deactivate subnet ∉ calls)
    (hfixed : ∀ target, .registerChain chain target ∈ calls → target = subnet) :
    (r.after calls).chains.get? chain = some subnet := by
  induction calls generalizing r with
  | nil => exact hchain
  | cons call rest ih =>
    rw [List.mem_cons, not_or] at hopen
    have hstep := get?_chains_step_of_fixed hchain (Ne.symm hopen.1) fun target heq =>
      hfixed target (heq ▸ List.mem_cons_self)
    exact ih hstep hopen.2 fun target hmem => hfixed target (List.mem_cons_of_mem _ hmem)

end Registry

namespace Verifier

variable {S : SignatureScheme} {item : AttestedMessage} {height : UInt64} {subnet : SubnetId}
  {config : ThrottleConfig} {calls more : List RegistryCall} {quorum : Quorum}

/-- A verdict depends on the oracle by the subnet of the chain and its validators at the height. -/
theorem verify_congr {oracle oracle' : ValidatorOracle}
    (hsubnet : oracle.subnetOf item.message.chain = .ok subnet)
    (hsubnet' : oracle'.subnetOf item.message.chain = .ok subnet)
    (hvalidators : oracle'.validatorsAt height subnet = oracle.validatorsAt height subnet) :
    verify ⟨oracle', quorum⟩ S item height = verify ⟨oracle, quorum⟩ S item height := by
  have hset : canonicalSet ⟨oracle', quorum⟩ item.message.chain height =
      canonicalSet ⟨oracle, quorum⟩ item.message.chain height := by
    simp only [canonicalSet, sourceSubnet, hsubnet, hsubnet', hvalidators]
  simp only [verify, verdict, hset]

/-- **Past verdicts are permanent.** Whatever calls a registry and its scopes have been through, and
whatever calls follow, a verdict on a message for a height that has been reached stays as it is, with
all that is reported of it, so long as the subnet of the message's chain is not deactivated and the
chain is not registered for another one. -/
theorem verify_unchanged_by_calls
    (hchain : ((Registry.make config).run calls).1.chains.get? item.message.chain = some subnet)
    (hactive : (((Registry.make config).run calls).1.active.get? subnet).isSome)
    (hreached : height ≤ ((Registry.make config).run calls).1.height)
    (hopen : .deactivate subnet ∉ more)
    (hfixed : ∀ target, .registerChain item.message.chain target ∈ more → target = subnet) :
    let r := ((Registry.make config).run calls).1
    verify ⟨(r.run more).1.oracle, quorum⟩ S item height = verify ⟨r.oracle, quorum⟩ S item height := by
  intro r
  have hchronicled : Registry.Chronicled r _ := Registry.chronicled_run config calls
  have hlater := Registry.get?_chains_after hchain hopen hfixed
  rw [Registry.run_eq_after r more]
  exact verify_congr (ChainMap.resolve_eq_ok_iff.mpr hchain) (ChainMap.resolve_eq_ok_iff.mpr hlater)
    (hchronicled.validatorsAt_after hactive hopen hreached)

/-- The only signer leaves, another subnet comes and goes, and the height rises. -/
def departingCalls : List RegistryCall :=
  [.onScope 0 (.change (.remove .zero)), .onScope 0 (.acquire .zero 1), .activate ⟨.ofNat 32 1⟩,
    .registerChain ⟨.ofNat 32 1⟩ ⟨.ofNat 32 1⟩, .activate primaryNetwork, .advance 12,
    .deactivate ⟨.ofNat 32 1⟩]

/-- The message stays accepted for height seven, though no longer for the height reached then. -/
theorem verify_unchanged_by_departure :
    let r := ((Registry.make ⟨8, 4, 2⟩).run dilutingCalls).1
    let later : Verifier := ⟨(r.run departingCalls).1.oracle, ⟨2, 3⟩⟩
    r.chains.get? knownMessage.message.chain = some primaryNetwork ∧
      (r.active.get? primaryNetwork).isSome ∧ 7 ≤ r.height ∧
      .deactivate primaryNetwork ∉ departingCalls ∧
      (∀ target, .registerChain knownMessage.message.chain target ∈ departingCalls →
        target = primaryNetwork) ∧
      (later.verify knownScheme knownMessage 7).1 = .ok () ∧
      (later.verify knownScheme knownMessage 12).1 ≠ .ok () := by
  intro r later
  have hchain : r.chains.get? knownMessage.message.chain = some primaryNetwork := by decide +kernel
  have hactive : (r.active.get? primaryNetwork).isSome := by decide +kernel
  have hreached : 7 ≤ r.height := by decide +kernel
  have hopen : .deactivate primaryNetwork ∉ departingCalls := by decide +kernel
  have hfixed : ∀ target, .registerChain knownMessage.message.chain target ∈ departingCalls →
      target = primaryNetwork := by
    intro target hmem
    have hother : knownMessage.message.chain ≠ ⟨.ofNat 32 1⟩ := by decide +kernel
    simp [departingCalls, hother] at hmem
  have hbefore : (verify ⟨r.oracle, ⟨2, 3⟩⟩ knownScheme knownMessage 7).1 = .ok () := by
    decide +kernel
  refine ⟨hchain, hactive, hreached, hopen, hfixed, ?_, by decide +kernel⟩
  rw [← hbefore]
  exact congrArg Prod.fst (verify_unchanged_by_calls hchain hactive hreached hopen hfixed)

end Verifier

end StakeGuard
