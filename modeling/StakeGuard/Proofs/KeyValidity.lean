import Mathlib
import StakeGuard.Bls.Scheme
import StakeGuard.Format.Shapes
import StakeGuard.Proofs.ReadBack

/-!
# Which keys can be come by, and which are read back

Keys belong to secrets, are read, or are joined of other keys (`SignatureScheme.Obtainable`). All that
is read is checked, and the identity of the group is refused; what is joined is not checked again, and
the elements of a group without its identity are not closed under addition. Main statements: where keys
are the elements of a group, every element can be come by, the identity included, and all but the
identity are read back as they are written (`SignatureScheme.KeyGroup.readsBack_unless_identity`); over
BLS12-381 a key and its mirror image are joined into a key that is refused
(`Bls.not_readPublicKey_of_obtainable`).
-/

namespace StakeGuard

namespace SignatureScheme

variable {S : SignatureScheme} {key : PublicKey}

/-- The keys that can be come by, from whatever bytes and JSON, also where these are part of more. -/
inductive Obtainable (S : SignatureScheme) : PublicKey → Prop
  | derived {material : Bytes} {secret : SecretKey} :
      S.deriveSecretKey material = .ok secret → Obtainable S (S.publicKey secret)
  | ofSecret {raw : FixedBytes 32} {secret : SecretKey} :
      S.readSecretKey raw = .ok secret → Obtainable S (S.publicKey secret)
  | read {bytes : Bytes} {key : PublicKey} : S.readPublicKey bytes = .ok key → Obtainable S key
  | ofJson {json : Json} {key : PublicKey} :
      (Form.publicKey S).ofJson? json = some key → Obtainable S key
  | ofBytes {bytes rest : Bytes} {key : PublicKey} :
      (Form.publicKey S).readBytes bytes = some (key, rest) → Obtainable S key
  | joined {keys : List PublicKey} {key : PublicKey} :
      (∀ part ∈ keys, Obtainable S part) → S.aggregateKeys keys = .ok key → Obtainable S key

/-! ## Reading checks keys -/

/-- Only valid keys are read from bytes. -/
theorem isPublicKey_of_readPublicKey {bytes : Bytes} (h : S.readPublicKey bytes = .ok key) :
    S.isPublicKey key = true := by
  unfold readPublicKey at h
  split at h
  · cases h
  · split at h
    next hvalid => cases h; exact hvalid
    next => cases h

/-- What the form of keys admits has passed the check, whatever it was read from. -/
theorem isPublicKey_of_admitted {raw : FixedBytes publicKeyLength}
    (h : (if S.isPublicKey ⟨raw⟩ then some (PublicKey.mk raw) else none) = some key) :
    S.isPublicKey key = true := by
  split at h
  next hvalid => cases h; exact hvalid
  next => cases h

theorem isPublicKey_of_ofJson? {json : Json} (h : (Form.publicKey S).ofJson? json = some key) :
    S.isPublicKey key = true := by
  obtain ⟨raw, -, hraw⟩ := Option.bind_eq_some_iff.mp h
  exact isPublicKey_of_admitted hraw

theorem isPublicKey_of_readBytes {bytes rest : Bytes}
    (h : (Form.publicKey S).readBytes bytes = some (key, rest)) : S.isPublicKey key = true := by
  obtain ⟨⟨raw, rest'⟩, -, hconvert⟩ := Option.bind_eq_some_iff.mp h
  obtain ⟨admitted, hraw, hfound⟩ := Option.map_eq_some_iff.mp hconvert
  cases hfound
  exact isPublicKey_of_admitted hraw

/-! ## Reading what is written -/

/-- A key is found again in all that it is written as. -/
structure ReadsBack (S : SignatureScheme) (key : PublicKey) : Prop where
  bytes : S.readPublicKey key.raw.bytes = .ok key
  json : (Form.publicKey S).ofJson? ((Form.publicKey S).toJson key) = some key
  form : (Form.publicKey S).ofBytes? ((Form.publicKey S).toBytes key) = some key

/-- A key is refused in all that it is written as. -/
structure Refuses (S : SignatureScheme) (key : PublicKey) : Prop where
  bytes : S.readPublicKey key.raw.bytes = .error .invalidPublicKey
  json : (Form.publicKey S).ofJson? ((Form.publicKey S).toJson key) = none
  form : (Form.publicKey S).ofBytes? ((Form.publicKey S).toBytes key) = none

theorem readPublicKey_bytes (S : SignatureScheme) (key : PublicKey) :
    S.readPublicKey key.raw.bytes =
      if S.isPublicKey key then .ok key else .error .invalidPublicKey := by
  rw [readPublicKey, FixedBytes.ofBytes?_bytes]

theorem readsBack_raw (key : PublicKey) : (Form.byteString publicKeyLength).ReadsBack key.raw :=
  Form.readsBack_byteString (by decide) key.raw

/-- A valid key is read back from every form. -/
theorem readsBack_of_isPublicKey (h : S.isPublicKey key = true) : S.ReadsBack key where
  bytes := by rw [readPublicKey_bytes, if_pos h]
  json := ((readsBack_raw key).ofJson?_convert _).trans (if_pos h)
  form := ((readsBack_raw key).ofBytes?_convert _).trans (if_pos h)

/-- A key that is not valid is refused in every form. -/
theorem refuses_of_not_isPublicKey (h : ¬S.isPublicKey key = true) : S.Refuses key where
  bytes := by rw [readPublicKey_bytes, if_neg h]
  json := ((readsBack_raw key).ofJson?_convert _).trans (if_neg h)
  form := ((readsBack_raw key).ofBytes?_convert _).trans (if_neg h)

/-! ## Keys that are the elements of a group -/

/-- The keys of a scheme encode the elements of a group. A secret is a number below the order of the
generator, and its key that multiple of the generator; all elements but the identity can be registered;
keys are joined by addition. -/
structure KeyGroup (S : SignatureScheme) {G : Type} [AddCommGroup G] (encode : G → PublicKey)
    (generator : G) : Prop where
  encode_injective : Function.Injective encode
  generator_ne : generator ≠ 0
  isPublicKey_iff : ∀ key, S.isPublicKey key = true ↔ ∃ p, p ≠ 0 ∧ encode p = key
  isSecretKey_of_derived : ∀ material secret,
    S.deriveSecret? material = some secret → S.isSecretKey secret = true
  exists_multiple : ∀ secret, S.isSecretKey secret = true →
    ∃ n, 0 < n ∧ n < addOrderOf generator ∧ S.publicKey secret = encode (n • generator)
  joinKeys?_map : ∀ ps, ps ≠ [] → S.joinKeys? (ps.map encode) = some (encode ps.sum)

namespace KeyGroup

variable {G : Type} [AddCommGroup G] {encode : G → PublicKey} {generator : G}
  (h : S.KeyGroup encode generator)
include h

theorem isPublicKey_encode_iff (p : G) : S.isPublicKey (encode p) = true ↔ p ≠ 0 := by
  rw [h.isPublicKey_iff]
  constructor
  · rintro ⟨q, hq, hencode⟩
    rwa [← h.encode_injective hencode]
  · exact fun hp => ⟨p, hp, rfl⟩

/-- No multiple of the generator below its order is the identity. -/
theorem isPublicKey_publicKey {secret : SecretKey} (hsecret : S.isSecretKey secret = true) :
    S.isPublicKey (S.publicKey secret) = true := by
  obtain ⟨n, hpos, hlt, hkey⟩ := h.exists_multiple secret hsecret
  rw [hkey, h.isPublicKey_encode_iff]
  exact fun hzero => hlt.not_ge (addOrderOf_le_of_nsmul_eq_zero hpos hzero)

theorem aggregateKeys_map {ps : List G} (hne : ps ≠ []) :
    S.aggregateKeys (ps.map encode) = .ok (encode ps.sum) := by
  have hkeys : ¬(ps.map encode).isEmpty = true := by simpa using hne
  simp only [aggregateKeys, if_neg hkeys, h.joinKeys?_map ps hne]

theorem exists_encode_of_isPublicKey (hvalid : S.isPublicKey key = true) :
    ∃ p, encode p = key := by
  obtain ⟨p, -, hp⟩ := (h.isPublicKey_iff key).mp hvalid
  exact ⟨p, hp⟩

/-- Whatever can be come by is an element of the group, since sums of elements are. -/
theorem exists_encode_of_obtainable (hkey : S.Obtainable key) : ∃ p, encode p = key := by
  induction hkey with
  | derived hsecret =>
    refine h.exists_encode_of_isPublicKey (h.isPublicKey_publicKey ?_)
    unfold deriveSecretKey at hsecret
    split at hsecret
    next => cases hsecret
    next secret hderived => cases hsecret; exact h.isSecretKey_of_derived _ _ hderived
  | ofSecret hsecret =>
    refine h.exists_encode_of_isPublicKey (h.isPublicKey_publicKey ?_)
    unfold readSecretKey at hsecret
    split at hsecret
    next hvalid => cases hsecret; exact hvalid
    next => cases hsecret
  | read hread => exact h.exists_encode_of_isPublicKey (isPublicKey_of_readPublicKey hread)
  | ofJson hread => exact h.exists_encode_of_isPublicKey (isPublicKey_of_ofJson? hread)
  | ofBytes hread => exact h.exists_encode_of_isPublicKey (isPublicKey_of_readBytes hread)
  | @joined keys key _ hjoin ih =>
    obtain ⟨ps, rfl⟩ : keys ∈ Set.range (List.map encode) := (Set.range_list_map encode).ge ih
    have hne : ps ≠ [] := by
      rintro rfl
      cases hjoin
    rw [h.aggregateKeys_map hne] at hjoin
    exact ⟨ps.sum, Except.ok.inj hjoin⟩

theorem obtainable_encode_of_ne {p : G} (hp : p ≠ 0) : S.Obtainable (encode p) :=
  .read (readsBack_of_isPublicKey ((h.isPublicKey_encode_iff p).mpr hp)).bytes

/-- The generator and its inverse can both be read, and are joined into the identity. -/
theorem obtainable_encode_zero : S.Obtainable (encode 0) := by
  have hjoin : S.aggregateKeys [encode generator, encode (-generator)] = .ok (encode 0) := by
    simpa using h.aggregateKeys_map (List.cons_ne_nil generator [-generator])
  refine .joined (fun part hpart => ?_) hjoin
  rcases List.mem_pair.mp hpart with rfl | rfl
  · exact h.obtainable_encode_of_ne h.generator_ne
  · exact h.obtainable_encode_of_ne (neg_ne_zero.mpr h.generator_ne)

/-- Exactly the elements can be come by. The identity is the sum of another element and its inverse. -/
theorem obtainable_iff : S.Obtainable key ↔ ∃ p, encode p = key := by
  refine ⟨h.exists_encode_of_obtainable, ?_⟩
  rintro ⟨p, rfl⟩
  by_cases hp : p = 0
  · rw [hp]; exact h.obtainable_encode_zero
  · exact h.obtainable_encode_of_ne hp

/-- **All keys but the identity are read back.** The keys that can be come by are the elements of the
group, and joining some of them never fails. The identity is among them and is refused in all that it
is written as; every other key is found again. -/
theorem readsBack_unless_identity :
    (∀ key, S.Obtainable key ↔ ∃ p, encode p = key) ∧
    (∀ keys, keys ≠ [] → (∀ part ∈ keys, S.Obtainable part) →
      ∃ key, S.aggregateKeys keys = .ok key) ∧
    S.Refuses (encode 0) ∧ ∀ key, S.Obtainable key → key ≠ encode 0 → S.ReadsBack key := by
  refine ⟨fun key => h.obtainable_iff, fun keys hne hkeys => ?_,
    refuses_of_not_isPublicKey fun hvalid => (h.isPublicKey_encode_iff 0).mp hvalid rfl,
    fun key hkey hne => ?_⟩
  · obtain ⟨ps, rfl⟩ : keys ∈ Set.range (List.map encode) :=
      (Set.range_list_map encode).ge fun part hpart => h.exists_encode_of_obtainable (hkeys part hpart)
    exact ⟨_, h.aggregateKeys_map (fun hnil => hne (congrArg _ hnil))⟩
  · obtain ⟨p, rfl⟩ := h.exists_encode_of_obtainable hkey
    have hp : p ≠ 0 := fun hzero => hne (congrArg encode hzero)
    exact readsBack_of_isPublicKey ((h.isPublicKey_encode_iff p).mpr hp)

end KeyGroup

end SignatureScheme

namespace Bls

/-- The identity, the generator and its mirror image, by which multiples of the generator they are. -/
def trioKey (p : ZMod 3) : PublicKey :=
  ⟨G1.encode (if p = 0 then .infinity else if p = 1 then G1.generator else G1.generator.neg)⟩

/-- The generator and its mirror image are read, but what they are joined into is not. -/
theorem not_readPublicKey_of_obtainable :
    ¬∀ key, scheme.Obtainable key → scheme.readPublicKey key.raw.bytes = .ok key := by
  intro hread
  have hgenerator : scheme.isPublicKey (trioKey 1) = true := by decide +kernel
  have hmirror : scheme.isPublicKey (trioKey 2) = true := by decide +kernel
  have hjoin : scheme.aggregateKeys [trioKey 1, trioKey 2] = .ok (trioKey 0) := by decide +kernel
  have hidentity : scheme.isPublicKey (trioKey 0) = false := by decide +kernel
  have hobtainable : scheme.Obtainable (trioKey 0) := by
    refine .joined (fun part hpart => ?_) hjoin
    rcases List.mem_pair.mp hpart with rfl | rfl
    · exact .read (SignatureScheme.readsBack_of_isPublicKey hgenerator).bytes
    · exact .read (SignatureScheme.readsBack_of_isPublicKey hmirror).bytes
  have hvalid := SignatureScheme.isPublicKey_of_readPublicKey (hread _ hobtainable)
  rw [hidentity] at hvalid
  cases hvalid

/-- The element of a key of the trio. -/
def trioPoint? (key : PublicKey) : Option (ZMod 3) := [0, 1, 2].find? (trioKey · = key)

theorem trioPoint?_trioKey : ∀ p, trioPoint? (trioKey p) = some p := by decide +kernel

/-- The scheme over BLS12-381 as far as these keys go; the secrets are one and minus one. -/
def trioScheme : SignatureScheme :=
  { scheme with
    isPublicKey := fun key => key = trioKey 1 ∨ key = trioKey 2
    isSecretKey := fun secret => scalar secret = 1 ∨ scalar secret = groupOrder - 1
    deriveSecret? := fun _ => none
    publicKey := fun secret => trioKey (if scalar secret = 1 then 1 else 2)
    joinKeys? := fun keys => (keys.mapM trioPoint?).map fun ps => trioKey ps.sum }

/-- The trio is a group of keys with three elements. -/
theorem keyGroup_trioScheme : trioScheme.KeyGroup trioKey 1 where
  encode_injective p q hkey := Option.some.inj <| by
    rw [← trioPoint?_trioKey p, ← trioPoint?_trioKey q, hkey]
  generator_ne := by decide
  isPublicKey_iff key := by
    have htrio : ∀ p : ZMod 3, p ≠ 0 → p = 1 ∨ p = 2 := by decide
    simp only [trioScheme, decide_eq_true_eq]
    constructor
    · rintro (rfl | rfl)
      · exact ⟨1, by decide, rfl⟩
      · exact ⟨2, by decide, rfl⟩
    · rintro ⟨p, hp, rfl⟩
      exact (htrio p hp).imp (congrArg trioKey) (congrArg trioKey)
  isSecretKey_of_derived _ _ hsecret := by cases hsecret
  exists_multiple secret _ := by
    have horder : addOrderOf (1 : ZMod 3) = 3 := ZMod.addOrderOf_one 3
    by_cases hone : scalar secret = 1
    · exact ⟨1, by decide, by rw [horder]; decide, by simp [trioScheme, hone]⟩
    · exact ⟨2, by decide, by rw [horder]; decide, by simp [trioScheme, hone]⟩
  joinKeys?_map ps _ := by
    have hpoints := Form.mapM_map_eq_some fun p (_ : p ∈ ps) => trioPoint?_trioKey p
    simp only [trioScheme, hpoints, Option.map_some]

/-- In the trio the identity can be come by and is refused, and the scheme over BLS12-381 joins its two
generators alike. -/
theorem readsBack_of_trio :
    trioScheme.KeyGroup trioKey 1 ∧ trioScheme.Obtainable (trioKey 0) ∧
      trioScheme.Refuses (trioKey 0) ∧ trioScheme.ReadsBack (trioKey 2) ∧
      trioScheme.aggregateKeys [trioKey 1, trioKey 2] = scheme.aggregateKeys [trioKey 1, trioKey 2] := by
  obtain ⟨hobtainable, -, hrefused, hback⟩ := keyGroup_trioScheme.readsBack_unless_identity
  have hmirror : trioKey 2 ≠ trioKey 0 := by decide +kernel
  exact ⟨keyGroup_trioScheme, (hobtainable _).mpr ⟨0, rfl⟩, hrefused,
    hback _ ((hobtainable _).mpr ⟨2, rfl⟩) hmirror, by decide +kernel⟩

end Bls

end StakeGuard
