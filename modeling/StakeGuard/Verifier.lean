import StakeGuard.Attestation
import StakeGuard.Cancellation
import StakeGuard.Metrics
import StakeGuard.Oracle

/-!
# Verifiers and signers

A verifier finds the canonical set of a message's chain through an oracle and checks attestations
against it with its quorum; every verdict is reported once. A signer signs the messages of one chain
of one network.
-/

namespace StakeGuard

/-- What decides on messages of any chain: the source of validator sets and the quorum that must have
signed. -/
structure Verifier where
  oracle : ValidatorOracle
  quorum : Quorum

/-- A message with the attestation that comes with it. -/
structure AttestedMessage where
  message : Message
  attestation : Attestation
deriving DecidableEq

/-- The verdict on a message, as it is reported. -/
def Signal.ofVerdict : Except AttestationError Unit → Signal
  | .ok () => .verified
  | .error e => .rejected e.errorClass.label e.reason

namespace Verifier

/-- A verifier whose quorum lies in `(0, 1]`. -/
def make (oracle : ValidatorOracle) (quorum : Quorum) : Except AttestationError Verifier :=
  quorum.validate.map fun _ => ⟨oracle, quorum⟩

/-- The subnet of the chain that a message says it is from. -/
def sourceSubnet (v : Verifier) (chain : ChainId) : Except AttestationError SubnetId :=
  match v.oracle.subnetOf chain with
  | .ok subnet => .ok subnet
  | .error (.unknownChain chain) => .error (.unknownSource chain)
  | .error cause => .error (.oracle cause)

/-- The signers of a chain at a height. What the oracle and the ordering of the signers refuse keeps its
cause. -/
def canonicalSet (v : Verifier) (chain : ChainId) (height : UInt64) :
    Except AttestationError CanonicalSet :=
  match v.sourceSubnet chain with
  | .error e => .error e
  | .ok subnet =>
    match v.oracle.validatorsAt height subnet with
    | .error cause => .error (.oracle cause)
    | .ok snapshot =>
      match CanonicalSet.ofSnapshot snapshot with
      | .error cause => .error (.canonicalization cause)
      | .ok set => .ok set

/-- The verdict on a message attested by the validators at a height. -/
def verdict (v : Verifier) (S : SignatureScheme) (item : AttestedMessage) (height : UInt64) :
    Except AttestationError Unit :=
  match v.canonicalSet item.message.chain height with
  | .error e => .error e
  | .ok set => item.attestation.verify S item.message set v.quorum

/-- The verdict and its report, which is counted once whatever the verdict. -/
def verify (v : Verifier) (S : SignatureScheme) (item : AttestedMessage) (height : UInt64) :
    Except AttestationError Unit × List Signal :=
  let verdict := v.verdict S item height
  (verdict, [.ofVerdict verdict])

/-- The verdict and its report, unless the verification is called off. -/
def verifyUnlessCancelled (v : Verifier) (S : SignatureScheme) (item : AttestedMessage)
    (height : UInt64) : Cancellation → Except AttestationError Unit × List Signal
  | .never => v.verify S item height
  | .before | .during => (.error .cancelled, [.ofVerdict (.error .cancelled)])

/-- The verdicts on messages against one canonical set, in order, and their reports. -/
def verifyBatch (v : Verifier) (S : SignatureScheme) (set : CanonicalSet)
    (items : List AttestedMessage) : List (Except AttestationError Unit) × List Signal :=
  let verdicts := items.map fun item => item.attestation.verify S item.message set v.quorum
  (verdicts, verdicts.map .ofVerdict)

end Verifier

/-- The key of a validator and the one chain of one network for which it signs. -/
structure Signer where
  secret : SecretKey
  network : UInt32
  chain : ChainId
deriving DecidableEq

namespace Signer

/-- A message of the signer's own chain and network, which it will sign. -/
def newMessage (s : Signer) (payload : Bytes) : Message := ⟨s.network, s.chain, payload⟩

/-- Signs a message, which must be from the signer's chain and network. -/
def sign (s : Signer) (S : SignatureScheme) (message : Message) :
    Except AttestationError Signature :=
  if message.chain ≠ s.chain then .error (.wrongSource s.chain message.chain)
  else if message.network ≠ s.network then .error (.wrongNetwork s.network message.network)
  else
    match message.encode with
    | .error fault => .error (.malformedMessage fault.message)
    | .ok bytes => .ok (S.sign s.secret bytes)

end Signer

end StakeGuard
