import Mathlib
import StakeGuard.Proofs.Assembly

/-!
# What can be assembled

Signatures are collected one after the other, and the first position that is repeated or out of range
ends the collection (`SignerSet.FirstFault`). What is collected to the end is joined if there is
anything and every signature is of the subgroup. Main statement: these are the only ways to fail, each
with an error of its own; what is assembled names exactly the positions in the list, and it is the same
in whatever order they are listed (`Attestation.assembled_iff_sound`).
-/

namespace StakeGuard

variable {S : SignatureScheme} {set : CanonicalSet} {items : List (Nat × Signature)} {size : Nat}

/-! ## Joining signatures -/

namespace SignatureScheme

/-- Signatures are joined unless one of them is not of the subgroup. -/
def ChecksSubgroup (S : SignatureScheme) (inSubgroup : Signature → Prop) : Prop :=
  ∀ signatures, signatures ≠ [] →
    ((S.joinSignatures? signatures).isSome ↔ ∀ signature ∈ signatures, inSubgroup signature)

/-- Signatures of the subgroup stand for points, which can be added in any order, and what they are
joined into encodes the sum. -/
def AddsPoints (S : SignatureScheme) (inSubgroup : Signature → Prop) {P : Type} [AddCommMonoid P]
    (point : Signature → P) (encode : P → Signature) : Prop :=
  ∀ signatures, signatures ≠ [] → (∀ signature ∈ signatures, inSubgroup signature) →
    S.joinSignatures? signatures = some (encode (signatures.map point).sum)

end SignatureScheme

namespace Bls

/-- A signature is the form of a point of the subgroup. -/
def InSubgroup (signature : Signature) : Prop :=
  ∃ p, G2.decode? signature.raw = some p ∧ p.inSubgroup = true

theorem isSome_signaturePoints? (signatures : List Signature) :
    (signaturePoints? signatures).isSome ↔ ∀ signature ∈ signatures, InSubgroup signature := by
  rw [signaturePoints?, Outcome.isSome_mapM_iff]
  refine forall₂_congr fun signature _ => ?_
  rw [Option.isSome_filter, Option.any_eq_true]
  rfl

/-- Joining checks for the subgroup, while reading a signature does not. -/
theorem checksSubgroup_scheme : scheme.ChecksSubgroup InSubgroup := by
  intro signatures _
  rw [← isSome_signaturePoints?]
  exact Bool.eq_iff_iff.mp Option.isSome_map

end Bls

namespace SignerSet

/-! ## Positions that are added one after the other -/

/-- The positions are distinct and below the size. -/
structure Addable (size : Nat) (positions : List Nat) : Prop where
  nodup : positions.Nodup
  lt : ∀ i ∈ positions, i < size

/-- The first position that cannot be added after those before it, and what is wrong with it. -/
inductive FirstFault (size : Nat) : List Nat → Fault → Prop
  | repeated {seen rest : List Nat} {i : Nat} : Addable size seen → i ∈ seen →
      FirstFault size (seen ++ i :: rest) (.repeated i)
  | outOfRange {seen rest : List Nat} {i : Nat} : Addable size seen → size ≤ i →
      FirstFault size (seen ++ i :: rest) (.outOfRange i size)

theorem FirstFault.append {positions : List Nat} {fault : Fault} (h : FirstFault size positions fault)
    (more : List Nat) : FirstFault size (positions ++ more) fault := by
  cases h with
  | repeated hseen hmem =>
    rw [List.append_assoc, List.cons_append]
    exact .repeated hseen hmem
  | outOfRange hseen hge =>
    rw [List.append_assoc, List.cons_append]
    exact .outOfRange hseen hge

theorem Addable.concat {positions : List Nat} {i : Nat} (h : Addable size positions)
    (hfresh : i ∉ positions) (hlt : i < size) : Addable size (positions ++ [i]) where
  nodup := List.nodup_append.mpr ⟨h.nodup, List.nodup_singleton i,
    fun _ ha _ hb => by rintro rfl; exact hfresh (List.mem_singleton.mp hb ▸ ha)⟩
  lt := by simpa [or_imp, forall_and] using ⟨h.lt, hlt⟩

/-- Positions can be added one after the other, or there is a first that cannot. -/
theorem addable_or_exists_firstFault (size : Nat) (positions : List Nat) :
    Addable size positions ∨ ∃ fault, FirstFault size positions fault := by
  -- On prefixes: a fault found in one stays the first however the list goes on.
  induction positions using List.reverseRecOn with
  | nil => exact .inl ⟨List.nodup_nil, nofun⟩
  | append_singleton seen i ih =>
    obtain hseen | ⟨fault, hfault⟩ := ih
    · by_cases hmem : i ∈ seen
      · exact .inr ⟨_, .repeated hseen hmem⟩
      · rcases Nat.lt_or_ge i size with hlt | hge
        · exact .inl (hseen.concat hmem hlt)
        · exact .inr ⟨_, .outOfRange hseen hge⟩
    · exact .inr ⟨fault, hfault.append [i]⟩

end SignerSet

namespace Attestation

open SignerSet (Addable FirstFault)

/-! ## The first fault ends the collection -/

section Collects

variable {c : Collection} {item : Nat × Signature} (h : Collects size items c)
include h

theorem Collects.add_of_mem (hmem : item.1 ∈ items.map (·.1)) :
    c.add item = .error (.invalidBitset (SignerSet.Fault.repeated item.1).message) :=
  if_pos ((h.contains_iff item.1).mpr hmem)

theorem Collects.add_of_le (hge : size ≤ item.1) :
    c.add item = .error (.invalidBitset (SignerSet.Fault.outOfRange item.1 size).message) := by
  have hge' : ¬item.1 < c.signers.size := Nat.not_lt.mpr (h.size_eq ▸ hge)
  have habsent : ¬c.signers.contains item.1 = true := mt SignerSet.lt_size_of_contains hge'
  rw [Collection.add, if_neg habsent, SignerSet.insert, if_neg hge', h.size_eq]

end Collects

theorem collect_eq_ok (h : Addable size (items.map (·.1))) :
    ∃ c, items.foldlM Collection.add ⟨.empty size, []⟩ = .ok c ∧ Collects size items c :=
  (collects_empty size).addAll h.nodup fun _ hitem => h.lt _ (List.mem_map_of_mem hitem)

/-- Where an item cannot be added to what collects those before it, the collection ends with it. -/
theorem collect_eq_error {seen rest : List (Nat × Signature)} {item : Nat × Signature}
    {e : AttestationError} (hseen : Addable size (seen.map (·.1)))
    (hadd : ∀ c, Collects size seen c → c.add item = .error e) :
    (seen ++ item :: rest).foldlM Collection.add ⟨.empty size, []⟩ = .error e := by
  obtain ⟨c, hfold, hcollects⟩ := collect_eq_ok hseen
  rw [List.foldlM_append, hfold]
  change (item :: rest).foldlM Collection.add c = .error e
  rw [List.foldlM_cons, hadd c hcollects]
  rfl

/-- Collecting fails with the first fault, whatever comes after it. -/
theorem collect_of_firstFault {fault : SignerSet.Fault}
    (h : FirstFault size (items.map (·.1)) fault) :
    items.foldlM Collection.add ⟨.empty size, []⟩ = .error (.invalidBitset fault.message) := by
  -- The list of positions is split at the fault, and the items are split where it is.
  generalize hpositions : items.map (·.1) = positions at h
  cases h with
  | repeated hseen hmem =>
    obtain ⟨seen, tail, rfl, rfl, htail⟩ := List.map_eq_append_iff.mp hpositions
    obtain ⟨item, rest, rfl, rfl, -⟩ := List.map_eq_cons_iff.mp htail
    exact collect_eq_error hseen fun c hc => hc.add_of_mem hmem
  | outOfRange hseen hge =>
    obtain ⟨seen, tail, rfl, rfl, htail⟩ := List.map_eq_append_iff.mp hpositions
    obtain ⟨item, rest, rfl, rfl, -⟩ := List.map_eq_cons_iff.mp htail
    exact collect_eq_error hseen fun c hc => hc.add_of_le hge

/-! ## Assembling -/

/-- There is something to assemble, at distinct positions below the size, and all of it is of the
subgroup. -/
structure Sound (inSubgroup : Signature → Prop) (size : Nat) (items : List (Nat × Signature)) :
    Prop where
  ne_nil : items ≠ []
  addable : Addable size (items.map (·.1))
  inSubgroup : ∀ item ∈ items, inSubgroup item.2

/-- Why signatures of positions cannot be assembled, each reason with the error it ends in. -/
inductive Refusal (inSubgroup : Signature → Prop) (size : Nat) (items : List (Nat × Signature)) :
    AttestationError → Prop
  | fault {fault : SignerSet.Fault} : FirstFault size (items.map (·.1)) fault →
      Refusal inSubgroup size items (.invalidBitset fault.message)
  | nobody : items = [] → Refusal inSubgroup size items .noSigners
  | stray : Addable size (items.map (·.1)) → (∃ item ∈ items, ¬inSubgroup item.2) →
      Refusal inSubgroup size items (.aggregation .aggregationFailed)

variable {inSubgroup : Signature → Prop}

/-- Items are sound or meet one of the refusals; there is nothing else. -/
theorem sound_or_refused (inSubgroup : Signature → Prop) (size : Nat)
    (items : List (Nat × Signature)) :
    Sound inSubgroup size items ∨ ∃ e, Refusal inSubgroup size items e := by
  obtain haddable | ⟨_, hfault⟩ := SignerSet.addable_or_exists_firstFault size (items.map (·.1))
  · by_cases hne : items = []
    · exact .inr ⟨_, .nobody hne⟩
    · by_cases hstray : ∃ item ∈ items, ¬inSubgroup item.2
      · exact .inr ⟨_, .stray haddable hstray⟩
      · exact .inl ⟨hne, haddable, fun item hitem =>
          of_not_not fun hnot => hstray ⟨item, hitem, hnot⟩⟩
  · exact .inr ⟨_, .fault hfault⟩

theorem Sound.perm {items' : List (Nat × Signature)} (h : Sound inSubgroup size items)
    (hperm : items'.Perm items) : Sound inSubgroup size items' where
  ne_nil hnil := h.ne_nil (List.nil_perm.mp (hnil ▸ hperm))
  addable :=
    ⟨(hperm.map _).nodup_iff.mpr h.addable.nodup,
      fun i hi => h.addable.lt i ((hperm.map _).mem_iff.mp hi)⟩
  inSubgroup item hitem := h.inSubgroup item (hperm.mem_iff.mp hitem)

/-- Each refusal is the error that is answered. -/
theorem aggregate_of_refusal (hchecks : S.ChecksSubgroup inSubgroup) {e : AttestationError}
    (h : Refusal inSubgroup set.size items e) : aggregate S set items = .error e := by
  cases h with
  | fault hfault => rw [aggregate, collect_of_firstFault hfault]
  | nobody hnil => rw [hnil]; rfl
  | stray haddable hstray =>
    obtain ⟨item, hitem, hnot⟩ := hstray
    obtain ⟨c, hfold, hcollects⟩ := collect_eq_ok haddable
    have hmem : item.2 ∈ items.map (·.2) := List.mem_map_of_mem hitem
    have hjoin : S.joinSignatures? (items.map (·.2)) = none :=
      Option.not_isSome_iff_eq_none.mp fun hsome =>
        hnot ((hchecks _ (List.ne_nil_of_mem hmem)).mp hsome _ hmem)
    have hsignatures : ¬(items.map (·.2)).isEmpty = true := by
      simpa using List.ne_nil_of_mem hitem
    rw [aggregate, hfold]
    simp only [hcollects.signatures_eq, if_neg hsignatures, SignatureScheme.aggregateSignatures,
      hjoin]

/-- Nothing but sound items is assembled. -/
theorem sound_of_aggregate (hchecks : S.ChecksSubgroup inSubgroup) {a : Attestation}
    (ha : aggregate S set items = .ok a) : Sound inSubgroup set.size items := by
  refine (sound_or_refused inSubgroup set.size items).resolve_right ?_
  rintro ⟨e, he⟩
  cases ha.symm.trans (aggregate_of_refusal hchecks he)

namespace Sound

variable (h : Sound inSubgroup set.size items)
include h

theorem signatures_ne_nil : items.map (·.2) ≠ [] := List.map_eq_nil_iff.not.mpr h.ne_nil

theorem inSubgroup_signature : ∀ signature ∈ items.map (·.2), inSubgroup signature :=
  List.forall_mem_map.mpr h.inSubgroup

theorem exists_aggregate {joint : Signature}
    (hjoin : S.joinSignatures? (items.map (·.2)) = some joint) :
    ∃ signers : SignerSet, aggregate S set items = .ok ⟨signers.encode, joint.raw⟩ ∧
      signers.size = set.size ∧ ∀ i, signers.contains i ↔ i ∈ items.map (·.1) :=
  Attestation.exists_aggregate h.ne_nil h.addable.nodup
    (fun _ hitem => h.addable.lt _ (List.mem_map_of_mem hitem)) hjoin

/-- Sound items are assembled, and the signer set of the attestation holds their positions. -/
theorem exists_assembled (hchecks : S.ChecksSubgroup inSubgroup) :
    ∃ a, aggregate S set items = .ok a ∧
      ∃ signers, a.signerSet set = .ok signers ∧
        ∀ i, signers.contains i ↔ i ∈ items.map (·.1) := by
  obtain ⟨joint, hjoin⟩ :=
    Option.isSome_iff_exists.mp ((hchecks _ h.signatures_ne_nil).mpr h.inSubgroup_signature)
  obtain ⟨signers, haggregate, hsize, hcontains⟩ := h.exists_aggregate hjoin
  exact ⟨_, haggregate, signers, signerSet_encode hsize _, hcontains⟩

/-- The order of the items decides neither the signers nor the sum of the points. -/
theorem aggregate_eq_of_perm {P : Type} [AddCommMonoid P] {point : Signature → P}
    {encode : P → Signature} (hadds : S.AddsPoints inSubgroup point encode)
    {items' : List (Nat × Signature)} (hperm : items'.Perm items) :
    aggregate S set items' = aggregate S set items := by
  have h' := h.perm hperm
  obtain ⟨signers, haggregate, hsize, hcontains⟩ :=
    h.exists_aggregate (hadds _ h.signatures_ne_nil h.inSubgroup_signature)
  obtain ⟨signers', haggregate', hsize', hcontains'⟩ :=
    h'.exists_aggregate (hadds _ h'.signatures_ne_nil h'.inSubgroup_signature)
  have hsigners : signers' = signers :=
    SignerSet.eq_of_contains_iff (hsize'.trans hsize.symm) fun i => by
      rw [hcontains, hcontains', (hperm.map _).mem_iff]
  have hsum : ((items'.map (·.2)).map point).sum = ((items.map (·.2)).map point).sum :=
    ((hperm.map _).map _).sum_eq
  rw [haggregate, haggregate', hsigners, hsum]

end Sound

/-- **Assembly is exact.** Signatures of positions are assembled exactly if there are any, the
positions are distinct and in range, and all signatures are of the subgroup. Otherwise the first
position that is repeated or out of range is reported before an empty list, and this before a signature
outside the subgroup. What is assembled names exactly the listed positions, and it is the same for
every order of the list. -/
theorem assembled_iff_sound (hchecks : S.ChecksSubgroup inSubgroup) (set : CanonicalSet)
    (items : List (Nat × Signature)) :
    ((∃ a, aggregate S set items = .ok a) ↔ Sound inSubgroup set.size items) ∧
    (∀ e, aggregate S set items = .error e ↔ Refusal inSubgroup set.size items e) ∧
    ∀ a, aggregate S set items = .ok a →
      (∃ signers, a.signerSet set = .ok signers ∧
        ∀ i, signers.contains i ↔ i ∈ items.map (·.1)) ∧
      ∀ {P : Type} [AddCommMonoid P] (point : Signature → P) (encode : P → Signature),
        S.AddsPoints inSubgroup point encode →
        ∀ items', items'.Perm items → aggregate S set items' = .ok a := by
  refine ⟨⟨fun ⟨a, ha⟩ => sound_of_aggregate hchecks ha, fun h => ?_⟩,
    fun e => ⟨fun he => ?_, aggregate_of_refusal hchecks⟩, fun a ha => ⟨?_, ?_⟩⟩
  · obtain ⟨a, ha, -⟩ := h.exists_assembled hchecks
    exact ⟨a, ha⟩
  · obtain h | ⟨e', he'⟩ := sound_or_refused inSubgroup set.size items
    · obtain ⟨a, ha, -⟩ := h.exists_assembled hchecks
      cases he.symm.trans ha
    · cases he.symm.trans (aggregate_of_refusal hchecks he')
      exact he'
  · obtain ⟨a', ha', hsigners⟩ := (sound_of_aggregate hchecks ha).exists_assembled hchecks
    cases ha.symm.trans ha'
    exact hsigners
  · intro P _ point encode hadds items' hperm
    rw [(sound_of_aggregate hchecks ha).aggregate_eq_of_perm hadds hperm, ha]

/-- A signature of the low message by its first signer, by its second, or by both. -/
def lowSignature (n : Nat) : Signature :=
  if n = 1 then pairSigningScheme.sign ⟨.ofNat 32 1⟩ []
  else if n = 2 then pairSigningScheme.sign ⟨.ofNat 32 2⟩ []
  else ⟨lowAttestation.signature⟩

/-- The two signatures as multiples of the first. -/
def lowMultiple (signature : Signature) : Nat := if signature = lowSignature 1 then 1 else 2

/-- The scheme over BLS12-381 as far as the two signatures go. -/
def lowScheme : SignatureScheme :=
  { Bls.scheme with
    joinSignatures? := fun signatures =>
      if ∀ signature ∈ signatures, signature ∈ [lowSignature 1, lowSignature 2] then
        some (lowSignature (signatures.map lowMultiple).sum)
      else none }

theorem checksSubgroup_lowScheme :
    lowScheme.ChecksSubgroup (· ∈ [lowSignature 1, lowSignature 2]) := by
  intro signatures _
  simp only [lowScheme]
  split <;> simp_all

theorem addsPoints_lowScheme :
    lowScheme.AddsPoints (· ∈ [lowSignature 1, lowSignature 2]) lowMultiple lowSignature :=
  fun _ _ hmem => if_pos hmem

/-- The second signer of the triad, then the first. -/
def lowItems : List (Nat × Signature) := [(1, lowSignature 2), (0, lowSignature 1)]

/-- Over BLS12-381 itself two items are assembled, and the small scheme joins them alike and satisfies
all that is asked of one. -/
theorem assembled_of_low_items :
    (∃ a, aggregate Bls.scheme triadSet lowItems = .ok a) ∧
      lowScheme.joinSignatures? (lowItems.map (·.2)) =
        Bls.scheme.joinSignatures? (lowItems.map (·.2)) ∧
      lowScheme.ChecksSubgroup (· ∈ [lowSignature 1, lowSignature 2]) ∧
      lowScheme.AddsPoints (· ∈ [lowSignature 1, lowSignature 2]) lowMultiple lowSignature ∧
      ∃ a signers, aggregate lowScheme triadSet lowItems = .ok a ∧
        a.signerSet triadSet = .ok signers ∧ signers.contains 0 ∧ ¬signers.contains 2 ∧
        aggregate lowScheme triadSet lowItems.reverse = .ok a := by
  have hjoin : Bls.scheme.joinSignatures? (lowItems.map (·.2)) = some (lowSignature 3) := by
    decide +kernel
  have hjoin' : lowScheme.joinSignatures? (lowItems.map (·.2)) = some (lowSignature 3) := by
    decide +kernel
  have haddable : Addable triadSet.size (lowItems.map (·.1)) := ⟨by decide, by decide⟩
  have hsubgroup : ∀ signature ∈ lowItems.map (·.2), Bls.InSubgroup signature :=
    (Bls.checksSubgroup_scheme _ (List.cons_ne_nil _ _)).mp (Option.isSome_of_eq_some hjoin)
  obtain ⟨hreal, -⟩ := assembled_iff_sound Bls.checksSubgroup_scheme triadSet lowItems
  obtain ⟨hiff, -, hassembled⟩ := assembled_iff_sound checksSubgroup_lowScheme triadSet lowItems
  obtain ⟨a, ha⟩ := hiff.mpr ⟨List.cons_ne_nil _ _, haddable, by simp [lowItems]⟩
  obtain ⟨⟨signers, hsigners, hcontains⟩, hperm⟩ := hassembled a ha
  refine ⟨hreal.mpr ⟨List.cons_ne_nil _ _, haddable, List.forall_mem_map.mp hsubgroup⟩,
    hjoin'.trans hjoin.symm, checksSubgroup_lowScheme, addsPoints_lowScheme,
    a, signers, ha, hsigners, ?_, ?_,
    hperm lowMultiple lowSignature addsPoints_lowScheme _ (List.reverse_perm _)⟩
  · exact (hcontains 0).mpr (by decide)
  · exact (hcontains 2).not.mpr (by decide)

end Attestation

end StakeGuard
