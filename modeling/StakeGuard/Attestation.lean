import StakeGuard.Attestation.Message
import StakeGuard.Attestation.Quorum
import StakeGuard.Attestation.SignerSet
import StakeGuard.CanonicalSet

/-!
# Attestations

One signature that stands for those of several signers, with the encoded set of their positions. An
attestation is checked in an order that leaves the costly steps for last: the quorum itself, the
signer set, the signers' weight, and only then keys and signature.
-/

namespace StakeGuard

/-- The signers' joint signature of a message; neither part has been checked. -/
structure Attestation where
  signers : Bytes
  signature : FixedBytes signatureLength
deriving DecidableEq

namespace Attestation

/-- The signatures of distinct positions, collected one after the other. -/
structure Collection where
  signers : SignerSet
  signatures : List Signature

/-- Takes in the signature of one more position. A position that has signed already is refused, and so
is one beyond the set. -/
def Collection.add (c : Collection) (item : Nat × Signature) :
    Except AttestationError Collection :=
  if c.signers.contains item.1 then
    .error (.invalidBitset (SignerSet.Fault.repeated item.1).message)
  else
    match c.signers.insert item.1 with
    | .error fault => .error (.invalidBitset fault.message)
    | .ok signers => .ok { signers, signatures := c.signatures ++ [item.2] }

/-- The attestation made of the signatures of the given positions of a canonical set. -/
def aggregate (S : SignatureScheme) (set : CanonicalSet) (items : List (Nat × Signature)) :
    Except AttestationError Attestation :=
  match items.foldlM Collection.add ⟨.empty set.size, []⟩ with
  | .error e => .error e
  | .ok collected =>
    if collected.signatures.isEmpty then .error .noSigners
    else
      match S.aggregateSignatures collected.signatures with
      | .error cause => .error (.aggregation cause)
      | .ok signature => .ok { signers := collected.signers.encode, signature := signature.raw }

/-- The signer set that an attestation claims, read for a canonical set of a given size. -/
def signerSet (a : Attestation) (set : CanonicalSet) : Except AttestationError SignerSet :=
  match SignerSet.decode a.signers set.size with
  | .error fault => .error (.invalidBitset fault.message)
  | .ok signers => .ok signers

/-- The entries of a canonical set that stand at the claimed positions, in ascending order. -/
def signersOf (set : CanonicalSet) (signers : SignerSet) : List CanonicalValidator :=
  signers.positions.filterMap set.get?

/-- The joint weight of signers as a word. The sum is not checked; in a set made from a snapshot it
fits, since it is at most the total. -/
def weightOf (validators : List CanonicalValidator) : UInt64 :=
  validators.foldl (fun sum v => sum + v.weight) 0

/-- The last and costly part of a verification: the signature is read, the signers' keys are joined, the
message is written in its signed form, and the joint key is put to the test. Each of the four has its
own error. -/
def verifySignature (S : SignatureScheme) (a : Attestation) (message : Message)
    (signers : List CanonicalValidator) : Except AttestationError Unit :=
  match S.readSignature a.signature with
  | .error cause => .error (.parseSignature cause)
  | .ok signature =>
    match S.aggregateKeys (signers.map (·.key)) with
    | .error cause => .error (.aggregation cause)
    | .ok key =>
      match message.encode with
      | .error fault => .error (.malformedMessage fault.message)
      | .ok bytes => if S.verify key bytes signature then .ok () else .error .invalidSignature

/-- Whether a message is attested by a quorum of a canonical set. -/
def verify (S : SignatureScheme) (a : Attestation) (message : Message) (set : CanonicalSet)
    (quorum : Quorum) : Except AttestationError Unit :=
  match quorum.validate with
  | .error e => .error e
  | .ok () =>
    match a.signerSet set with
    | .error e => .error e
    | .ok claimed =>
      let signers := signersOf set claimed
      match quorum.checkWeight (weightOf signers) set.totalWeight with
      | .error e => .error e
      | .ok () =>
        if signers.isEmpty then .error .noSigners
        else a.verifySignature S message signers

end Attestation

end StakeGuard
