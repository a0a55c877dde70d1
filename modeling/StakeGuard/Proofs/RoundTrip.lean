import StakeGuard.Format.Shapes
import StakeGuard.Format.Text
import StakeGuard.Proofs.Faithful
import StakeGuard.Proofs.JsonText

/-!
# JSON and bytes agree on all that can be decoded

A value decodes if some JSON text or some byte string is read as it, however it is spelled there:
structures as arrays, members in any order, unknown or missing members, escapes, blanks, bytes after the
end. Main statement: for each form of the library, a value that decodes is written in one way as JSON
and in one way as bytes, both are read as the value itself, and the two forms tell the same values apart
(`Form.forms_roundTrip`).
-/

namespace StakeGuard.Form

variable {α : Type} {f : Form α}

/-- The values that texts and byte strings are read as. A text lies in memory, so a word counts its
bytes. -/
inductive Decodes (f : Form α) (a : α) : Prop
  | json {text : List Char} : Text.size text < Bytes.capacity 8 → f.ofJsonText? text = some a →
    Decodes f a
  | bytes {bytes : Bytes} : f.ofBytes? bytes = some a → Decodes f a

/-- What decodes is found again in its JSON text and in its bytes, and the two texts of two values are
the same where their bytes are. -/
structure RoundTrips (f : Form α) : Prop where
  json : ∀ {a}, f.Decodes a → f.ofJsonText? (f.jsonText a).toList = some a
  bytes : ∀ {a}, f.Decodes a → f.ofBytes? (f.toBytes a) = some a
  agree : ∀ {a b}, f.Decodes a → f.Decodes b →
    (f.jsonText a = f.jsonText b ↔ f.toBytes a = f.toBytes b)

/-- A value that is read back and written plainly is read back from its text. -/
theorem ReadsBack.ofJsonText?_jsonText {a : α} (h : f.ReadsBack a) (hplain : (f.toJson a).Plain) :
    f.ofJsonText? (f.jsonText a).toList = some a := by
  rw [jsonText, Json.compact, String.toList_ofList, ofJsonText?, Json.parse_render hplain]
  exact h.ofJson?_toJson

theorem ReadsBack.ofBytes?_toBytes {a : α} (h : f.ReadsBack a) : f.ofBytes? (f.toBytes a) = some a := by
  have hbytes := h.readBytes_toBytes []
  rw [List.append_nil] at hbytes
  rw [ofBytes?, hbytes]
  rfl

/-- What decodes is exactly what is read back. -/
theorem Faithful.decodes_iff (h : f.Faithful) {a : α} : f.Decodes a ↔ f.ReadsBack a := by
  refine ⟨fun ha => ?_, fun ha => .bytes ha.ofBytes?_toBytes⟩
  cases ha with
  | json hsize hread =>
    obtain ⟨j, hparse, hj⟩ := Option.bind_eq_some_iff.mp hread
    exact h.readsBack_of_ofJson? (Json.within_of_parse hparse hsize) hj
  | bytes hread =>
    obtain ⟨⟨a, rest⟩, hbytes, rfl⟩ := Option.map_eq_some_iff.mp hread
    exact h.readsBack_of_readBytes hbytes

/-- All that a faithful form decodes is written and read back in both forms, which tell the same values
apart. -/
theorem Faithful.roundTrips (h : f.Faithful) : f.RoundTrips := by
  have hjson : ∀ {a}, f.Decodes a → f.ofJsonText? (f.jsonText a).toList = some a :=
    fun {a} ha => (h.decodes_iff.mp ha).ofJsonText?_jsonText (h.plain a)
  have hbytes : ∀ {a}, f.Decodes a → f.ofBytes? (f.toBytes a) = some a :=
    fun ha => (h.decodes_iff.mp ha).ofBytes?_toBytes
  refine ⟨hjson, hbytes, fun {a b} ha hb => ⟨fun heq => ?_, fun heq => ?_⟩⟩
  · have hab : a = b := Option.some.inj ((hjson ha).symm.trans (heq ▸ hjson hb))
    rw [hab]
  · have hab : a = b := Option.some.inj ((hbytes ha).symm.trans (heq ▸ hbytes hb))
    rw [hab]

/-! ## The library's forms -/

variable {S : SignatureScheme}

theorem readsBack_identifier {kind : IdentifierKind} (id : Identifier kind) :
    (identifier kind).ReadsBack id :=
  (readsBack_byteArray id.raw).convert rfl

theorem faithful_identifier (kind : IdentifierKind) : (identifier kind).Faithful :=
  (faithful_byteArray kind.width).convert fun h => by cases h; rfl

theorem readsBack_publicKey {key : PublicKey} (h : S.isPublicKey key = true) :
    (publicKey S).ReadsBack key :=
  (readsBack_byteString (by decide) key.raw).convert (if_pos h)

theorem faithful_publicKey : (publicKey S).Faithful :=
  (faithful_byteString (by decide)).convert fun h => by
    split at h <;> cases h
    rfl

theorem faithful_signature : (signature S).Faithful :=
  (faithful_byteString (by decide)).convert fun h => by
    split at h <;> cases h
    rfl

theorem faithful_validator : (validator S).Faithful := by
  have hkey : (publicKey S).option.Faithful := faithful_publicKey.option fun _ => nofun
  have hnone : ∀ a ∈ (some none : Option (Option PublicKey)), (publicKey S).option.ReadsBack a := by
    rintro _ ⟨⟩
    exact readsBack_none _
  have hnames : ["node_id", "public_key", "weight"].Nodup := by decide
  refine Faithful.convert (Fields.Faithful.form ?_ hnames) fun h => by cases h; rfl
  exact (Fields.faithful_field _ (faithful_identifier _)).and
    ((Fields.faithful_fieldOr _ hkey hnone).and (Fields.faithful_field _ faithful_uint64))

theorem faithful_canonicalValidator : (canonicalValidator S).Faithful := by
  have hnames : ["public_key", "weight", "node_ids"].Nodup := by decide
  refine Faithful.convert (Fields.Faithful.form ?_ hnames) fun h => by cases h; rfl
  exact (Fields.faithful_field _ faithful_publicKey).and
    ((Fields.faithful_field _ faithful_uint64).and
      (Fields.faithful_field _ (faithful_identifier _).list))

/-- Canonical sets are read back as they were read, even those that no snapshot has. -/
theorem faithful_canonicalSet : (canonicalSet S).Faithful := by
  have hnames : ["validators", "total_weight"].Nodup := by decide
  refine Faithful.convert (Fields.Faithful.form ?_ hnames) fun h => by cases h; rfl
  exact (Fields.faithful_field _ faithful_canonicalValidator.list).and
    (Fields.faithful_field _ faithful_uint64)

theorem faithful_message : message.Faithful := by
  refine Faithful.convert (Fields.Faithful.form ?_ (by decide)) fun h => by cases h; rfl
  exact (Fields.faithful_field _ faithful_uint32).and
    ((Fields.faithful_field _ (faithful_identifier _)).and
      (Fields.faithful_field _ faithful_uint8.list))

theorem readsBack_attestation {a : Attestation} (h : a.signers.length < Bytes.capacity 8) :
    attestation.ReadsBack a := by
  refine ReadsBack.convert (Fields.ReadsBack.form ?_ (by decide) rfl) rfl
  exact (Fields.readsBack_fieldOr _ (readsBack_list (fun b _ => readsBack_uint8 b) h) _).and rfl
    (Fields.readsBack_fieldOr _ (readsBack_byteString (by decide) a.signature) _)

theorem faithful_attestation : attestation.Faithful := by
  refine Faithful.convert (Fields.Faithful.form ?_ (by decide)) fun h => by cases h; rfl
  exact (Fields.faithful_field _ faithful_uint8.list).and
    (Fields.faithful_field _ (faithful_byteString (by decide)))

/-! ### Configurations -/

theorem readsBack_throttleConfig (c : ThrottleConfig) : throttleConfig.ReadsBack c := by
  have hsize (name : String) (n : UInt64) (missing : Option UInt64) :
      (Fields.fieldOr name uint64 missing).ReadsBack n :=
    Fields.readsBack_fieldOr name (readsBack_uint64 n) missing
  refine ReadsBack.convert (Fields.ReadsBack.form ?_ (by decide) rfl) rfl
  exact (hsize _ _ _).and rfl ((hsize _ _ _).and rfl (hsize _ _ _))

theorem readsBack_quorum (q : Quorum) : quorum.ReadsBack q := by
  have hpart (name : String) (n : UInt64) (missing : Option UInt64) :
      (Fields.fieldOr name uint64 missing).ReadsBack n :=
    Fields.readsBack_fieldOr name (readsBack_uint64 n) missing
  refine ReadsBack.convert (Fields.ReadsBack.form ?_ (by decide) rfl) rfl
  exact (hpart _ _ _).and rfl (hpart _ _ _)

theorem readsBack_logging {l : Logging} (h : (Text.utf8 l.level.toList).length < Bytes.capacity 8) :
    logging.ReadsBack l := by
  refine ReadsBack.convert (Fields.ReadsBack.form ?_ (by decide) rfl) rfl
  exact (Fields.readsBack_fieldOr _ (readsBack_text h) _).and rfl
    (Fields.readsBack_fieldOr _ (readsBack_bool l.json) _)

theorem readsBack_configuration {c : Configuration}
    (h : (Text.utf8 c.logging.level.toList).length < Bytes.capacity 8) :
    configuration.ReadsBack c := by
  refine ReadsBack.convert (Fields.ReadsBack.form ?_ (by decide) rfl) rfl
  exact (Fields.readsBack_fieldOr _ (readsBack_uint32 c.network) _).and rfl
    ((Fields.readsBack_fieldOr _ (readsBack_throttleConfig c.throttle) _).and rfl
      ((Fields.readsBack_fieldOr _ (readsBack_quorum c.quorum) _).and rfl
        (Fields.readsBack_fieldOr _ (readsBack_logging h) _)))

theorem faithful_throttleConfig : throttleConfig.Faithful := by
  have hsize (name : String) (n : UInt64) : (Fields.fieldOr name uint64 (some n)).Faithful :=
    Fields.faithful_fieldOr _ faithful_uint64 fun _ _ => readsBack_uint64 _
  refine Faithful.convert (Fields.Faithful.form ?_ (by decide)) fun h => by cases h; rfl
  exact (hsize _ _).and ((hsize _ _).and (hsize _ _))

theorem faithful_quorum : quorum.Faithful := by
  have hpart (name : String) (n : UInt64) : (Fields.fieldOr name uint64 (some n)).Faithful :=
    Fields.faithful_fieldOr _ faithful_uint64 fun _ _ => readsBack_uint64 _
  refine Faithful.convert (Fields.Faithful.form ?_ (by decide)) fun h => by cases h; rfl
  exact (hpart _ _).and (hpart _ _)

theorem faithful_logging : logging.Faithful := by
  refine Faithful.convert (Fields.Faithful.form ?_ (by decide)) fun h => by cases h; rfl
  refine (Fields.faithful_fieldOr _ faithful_text ?_).and
    (Fields.faithful_fieldOr _ faithful_bool fun _ _ => readsBack_bool _)
  rintro _ ⟨⟩
  exact readsBack_text (by decide)

theorem faithful_configuration : configuration.Faithful := by
  refine Faithful.convert (Fields.Faithful.form ?_ (by decide)) fun h => by cases h; rfl
  refine (Fields.faithful_fieldOr _ faithful_uint32 fun _ _ => readsBack_uint32 _).and
    ((Fields.faithful_fieldOr _ faithful_throttleConfig fun _ _ => readsBack_throttleConfig _).and
      ((Fields.faithful_fieldOr _ faithful_quorum fun _ _ => readsBack_quorum _).and
        (Fields.faithful_fieldOr _ faithful_logging ?_)))
  rintro _ ⟨⟩
  exact readsBack_logging (by decide)

/-- Every attestation decodes, whatever its bytes are, if a word counts them. -/
theorem decodes_attestation {a : Attestation} (h : a.signers.length < Bytes.capacity 8) :
    attestation.Decodes a :=
  faithful_attestation.decodes_iff.mpr (readsBack_attestation h)

/-- Every configuration decodes, whatever its numbers and its level are, if a word counts the bytes of
the level. -/
theorem decodes_configuration {c : Configuration}
    (h : (Text.utf8 c.logging.level.toList).length < Bytes.capacity 8) : configuration.Decodes c :=
  faithful_configuration.decodes_iff.mpr (readsBack_configuration h)

/-- **All forms round-trip.** Whatever text or bytes a value comes from, its JSON text and its bytes are
both read as the value, so writing it again gives the same, and the forms never disagree. -/
theorem forms_roundTrip (S : SignatureScheme) :
    (identifier .node).RoundTrips ∧ (identifier .chain).RoundTrips ∧ (publicKey S).RoundTrips ∧
      (signature S).RoundTrips ∧ (validator S).RoundTrips ∧ (canonicalSet S).RoundTrips ∧
      message.RoundTrips ∧ attestation.RoundTrips ∧ throttleConfig.RoundTrips ∧ quorum.RoundTrips ∧
      configuration.RoundTrips :=
  ⟨(faithful_identifier _).roundTrips, (faithful_identifier _).roundTrips,
    faithful_publicKey.roundTrips, faithful_signature.roundTrips, faithful_validator.roundTrips,
    faithful_canonicalSet.roundTrips, faithful_message.roundTrips, faithful_attestation.roundTrips,
    faithful_throttleConfig.roundTrips, faithful_quorum.roundTrips,
    faithful_configuration.roundTrips⟩

example : quorum.ofJsonText? "[ 3 ]".toList = some ⟨3, 100⟩ := by decide +kernel

end StakeGuard.Form
