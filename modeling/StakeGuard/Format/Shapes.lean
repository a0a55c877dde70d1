import StakeGuard.Attestation
import StakeGuard.Configuration
import StakeGuard.Format.Form

/-!
# Forms of the library's types

How identifiers, keys, validators, canonical sets, messages, attestations and configurations are
written in JSON and in bytes. Keys and signatures are checked when they are read; nothing else is
checked beyond the widths of numbers.
-/

namespace StakeGuard

namespace Form

/-- Identifiers, an array of bytes of the kind's width. -/
def identifier (kind : IdentifierKind) : Form (Identifier kind) :=
  (byteArray kind.width).convert Identifier.raw fun raw => some ⟨raw⟩

/-- Public keys, checked by the scheme. -/
def publicKey (S : SignatureScheme) : Form PublicKey :=
  (byteString publicKeyLength).convert PublicKey.raw fun raw =>
    if S.isPublicKey ⟨raw⟩ then some ⟨raw⟩ else none

/-- Signatures, checked by the scheme as `readSignature` does. -/
def signature (S : SignatureScheme) : Form Signature :=
  (byteString signatureLength).convert Signature.raw fun raw =>
    if S.isSignature ⟨raw⟩ then some ⟨raw⟩ else none

/-- Validators; in JSON the key may be missing or `null`. A weight may be zero. -/
def validator (S : SignatureScheme) : Form Validator :=
  let fields := (Fields.field "node_id" (identifier .node)).and
    ((Fields.fieldOr "public_key" (publicKey S).option (some none)).and
      (Fields.field "weight" uint64))
  fields.form.convert (fun v => (v.node, v.key, v.weight)) fun (node, key, weight) =>
    some { node, key, weight }

/-- Signer positions. Nothing is asked of the order of the nodes. -/
def canonicalValidator (S : SignatureScheme) : Form CanonicalValidator :=
  let fields := (Fields.field "public_key" (publicKey S)).and
    ((Fields.field "weight" uint64).and
      (Fields.field "node_ids" (identifier .node).list))
  fields.form.convert (fun v => (v.key, v.weight, v.nodes)) fun (key, weight, nodes) =>
    some { key, weight, nodes }

/-- Canonical sets. Keys may come twice and in any order, and the total is not compared with the
weights. -/
def canonicalSet (S : SignatureScheme) : Form CanonicalSet :=
  let fields := (Fields.field "validators" (canonicalValidator S).list).and
    (Fields.field "total_weight" uint64)
  fields.form.convert (fun c => (c.validators, c.totalWeight)) fun (validators, totalWeight) =>
    some { validators, totalWeight }

/-- Messages as values; the form that is signed is `Message.encode`. -/
def message : Form Message :=
  let fields := (Fields.field "network_id" uint32).and
    ((Fields.field "source_chain_id" (identifier .chain)).and
      (Fields.field "payload" uint8.list))
  fields.form.convert (fun m => (m.network, m.chain, m.payload)) fun (network, chain, payload) =>
    some { network, chain, payload }

/-- Attestations, whose parts are not checked. -/
def attestation : Form Attestation :=
  let fields := (Fields.field "signers" uint8.list).and
    (Fields.field "signature" (byteString signatureLength))
  fields.form.convert (fun a => (a.signers, a.signature)) fun (signers, signature) =>
    some { signers, signature }

/-- Pool sizes; missing ones are the default's. -/
def throttleConfig : Form ThrottleConfig :=
  let default := ThrottleConfig.default
  let fields := (Fields.fieldOr "vdrAllocSize" uint64 (some default.validatorPool)).and
    ((Fields.fieldOr "atLargeAllocSize" uint64 (some default.atLargePool)).and
      (Fields.fieldOr "nodeMaxAtLargeBytes" uint64 (some default.nodeCap)))
  fields.form.convert (fun c => (c.validatorPool, c.atLargePool, c.nodeCap))
    fun (validatorPool, atLargePool, nodeCap) => some { validatorPool, atLargePool, nodeCap }

/-- Quorums; missing parts are the default's. -/
def quorum : Form Quorum :=
  let default := Quorum.default
  let fields := (Fields.fieldOr "quorumNum" uint64 (some default.num)).and
    (Fields.fieldOr "quorumDen" uint64 (some default.den))
  fields.form.convert (fun q => (q.num, q.den)) fun (num, den) => some { num, den }

/-- Logging options; missing ones are the default's. -/
def logging : Form Logging :=
  let default := Logging.default
  let fields := (Fields.fieldOr "level" text (some default.level)).and
    (Fields.fieldOr "json" bool (some default.json))
  fields.form.convert (fun l => (l.level, l.json)) fun (level, json) => some { level, json }

/-- Configurations; missing parts are the default's. -/
def configuration : Form Configuration :=
  let default := Configuration.default
  let fields := (Fields.fieldOr "networkId" uint32 (some default.network)).and
    ((Fields.fieldOr "throttler" throttleConfig (some default.throttle)).and
      ((Fields.fieldOr "quorum" quorum (some default.quorum)).and
        (Fields.fieldOr "logging" logging (some default.logging))))
  fields.form.convert (fun c => (c.network, c.throttle, c.quorum, c.logging))
    fun (network, throttle, quorum, logging) => some { network, throttle, quorum, logging }

end Form

end StakeGuard
