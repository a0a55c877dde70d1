import StakeGuard.Validator

/-!
# What can go wrong with an attestation

Errors of the oracle that knows the validators, and errors of assembling and verifying attestations.
An error is the sender's fault (`integrity`), may pass with time (`transient`), or is neither
(`fatal`).
-/

namespace StakeGuard

/-- Why a question to an oracle has no answer. Only the last two may pass with time; that a chain or a
subnet is unknown is taken as final. -/
inductive OracleError where
  | unknownChain (chain : ChainId)
  | unknownSubnet (subnet : SubnetId)
  | heightNotReached (requested current : UInt64)
  | unavailable (reason : String)
deriving DecidableEq

namespace OracleError

/-- The name of an error's variant. -/
def kind : OracleError → String
  | unknownChain _ => "UnknownChain"
  | unknownSubnet _ => "UnknownSubnet"
  | heightNotReached .. => "HeightNotReached"
  | unavailable _ => "Unavailable"

/-- The text of an error. -/
def message : OracleError → String
  | unknownChain chain => s!"Unknown chain: {chain}"
  | unknownSubnet subnet => s!"Unknown subnet: {subnet}"
  | heightNotReached requested current =>
    s!"Height {requested} not reached, current height is {current}"
  | unavailable reason => s!"Validator state unavailable: {reason}"

end OracleError

/-- Why a message is not attested, or an attestation or a signature cannot be made. -/
inductive AttestationError where
  | unknownSource (chain : ChainId)
  | oracle (cause : OracleError)
  | canonicalization (cause : ValidatorError)
  | invalidBitset (reason : String)
  | insufficientWeight (signed total num den : UInt64)
  | noSigners
  | parseSignature (cause : CryptoError)
  | aggregation (cause : CryptoError)
  | invalidSignature
  | invalidQuorum (num den : UInt64)
  | wrongSource (expected actual : ChainId)
  | wrongNetwork (expected actual : UInt32)
  | malformedMessage (reason : String)
  | cancelled
  | internal (reason : String)
deriving DecidableEq

/-- Who or what an error is due to. -/
inductive ErrorClass where
  | integrity
  | transient
  | fatal
deriving DecidableEq

/-- The name of a class in counters. -/
def ErrorClass.label : ErrorClass → String
  | integrity => "integrity"
  | transient => "transient"
  | fatal => "fatal"

namespace AttestationError

/-- The name of an error's variant. -/
def kind : AttestationError → String
  | unknownSource _ => "UnknownSource"
  | oracle _ => "Oracle"
  | canonicalization _ => "Canonicalization"
  | invalidBitset _ => "InvalidBitset"
  | insufficientWeight .. => "InsufficientWeight"
  | noSigners => "NoSigners"
  | parseSignature _ => "ParseSignature"
  | aggregation _ => "Aggregation"
  | invalidSignature => "InvalidSignature"
  | invalidQuorum .. => "InvalidQuorum"
  | wrongSource .. => "WrongSource"
  | wrongNetwork .. => "WrongNetwork"
  | malformedMessage _ => "MalformedMessage"
  | cancelled => "Cancelled"
  | internal _ => "Internal"

/-- The text of an error, that of its cause included. -/
def message : AttestationError → String
  | unknownSource chain => s!"Unknown source chain: {chain}"
  | oracle cause => s!"Validator state query failed: {cause.message}"
  | canonicalization cause => s!"Canonicalization failed: {cause.message}"
  | invalidBitset reason => s!"Invalid signer bitset: {reason}"
  | insufficientWeight signed total num den =>
    s!"Insufficient weight: {num}*{total} > {den}*{signed}"
  | noSigners => "Signature claims no signers"
  | parseSignature cause => s!"Failed to parse signature: {cause.message}"
  | aggregation cause => s!"Failed to aggregate: {cause.message}"
  | invalidSignature => "Signature is invalid"
  | invalidQuorum num den => s!"Invalid quorum fraction {num}/{den}"
  | wrongSource expected actual => s!"Signer is for {expected}, message is from {actual}"
  | wrongNetwork expected actual =>
    s!"Signer is for network {expected}, message is for {actual}"
  | malformedMessage reason => s!"Malformed message: {reason}"
  | cancelled => "Verification cancelled"
  | internal reason => s!"Internal error: {reason}"

/-- Whether the input itself is hostile or corrupt. -/
def isIntegrity : AttestationError → Bool
  | invalidBitset _ | insufficientWeight .. | noSigners | parseSignature _ | invalidSignature
  | malformedMessage _ => true
  | _ => false

/-- Whether the same verification may come out differently later. -/
def isTransient : AttestationError → Bool
  | oracle (.heightNotReached ..) | oracle (.unavailable _) | cancelled => true
  | _ => false

/-- The class of an error. No error is both hostile and passing, so the order of the two tests does not
matter. -/
def errorClass (e : AttestationError) : ErrorClass :=
  if e.isIntegrity then .integrity else if e.isTransient then .transient else .fatal

/-- The short name of an error in counters. -/
def reason : AttestationError → String
  | unknownSource _ => "unknown_source"
  | oracle _ => "oracle"
  | canonicalization _ => "canonicalization"
  | invalidBitset _ => "invalid_bitset"
  | insufficientWeight .. => "insufficient_weight"
  | noSigners => "no_signers"
  | parseSignature _ => "parse_signature"
  | aggregation _ => "aggregation"
  | invalidSignature => "invalid_signature"
  | invalidQuorum .. => "invalid_quorum"
  | wrongSource .. => "wrong_source"
  | wrongNetwork .. => "wrong_network"
  | malformedMessage _ => "malformed_message"
  | cancelled => "cancelled"
  | internal _ => "internal"

end AttestationError

end StakeGuard
