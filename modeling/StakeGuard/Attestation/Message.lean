import StakeGuard.Hash.Sha256
import StakeGuard.Identifier

/-!
# Messages

What the validators of a chain attest, and the bytes that they sign for it: a version of two bytes,
the network's number in four, the chain's 32, the length of the payload in four, and the payload.
Numbers are written most significant byte first, and no other form of a message is accepted.
-/

namespace StakeGuard

/-- A payload said to come from a chain of a network. -/
structure Message where
  network : UInt32
  chain : ChainId
  payload : Bytes
deriving DecidableEq

namespace Message

/-- The version of the signed form, the only one that is read. -/
def version : Nat := 0

/-- The length of all that precedes the payload in the signed form. -/
def headerLength : Nat := 42

/-- What the length of a payload must be below. -/
def payloadBound : Nat := 0x100000000

/-- Why a message has no signed form, or bytes are not one. -/
inductive Fault where
  | payloadTooLong (length : Nat)
  | shortHeader (length : Nat)
  | unknownVersion (version : Nat)
  | payloadLength (expected found : Nat)
deriving DecidableEq

/-- The text of a fault. -/
def Fault.message : Fault → String
  | payloadTooLong length => s!"payload of {length} bytes exceeds u32 length"
  | shortHeader length => s!"{length} bytes, header needs {headerLength}"
  | unknownVersion version => s!"unknown codec version {version}"
  | payloadLength expected found => s!"payload length {expected}, found {found} bytes"

/-- The bytes that are signed for a message. -/
def encode (m : Message) : Except Fault Bytes :=
  if m.payload.length < payloadBound then
    .ok (Bytes.ofNatBE 2 version ++ Bytes.ofNatBE 4 m.network.toNat ++ m.chain.bytes
      ++ Bytes.ofNatBE 4 m.payload.length ++ m.payload)
  else .error (.payloadTooLong m.payload.length)

/-- The message of a signed form. The faults are looked for from the front: a header that is too short,
its version, and the length of the payload, which must be all that follows. -/
def decode (bytes : Bytes) : Except Fault Message :=
  if h : bytes.length < headerLength then .error (.shortHeader bytes.length)
  else
    let found := Bytes.toNatBE (bytes.take 2)
    if found ≠ version then .error (.unknownVersion found)
    else
      let chain : ChainId := ⟨(bytes.drop 6).take 32, by
        have hn : 42 ≤ bytes.length := Nat.le_of_not_lt h
        simp [IdentifierKind.width]
        omega⟩
      let length := Bytes.toNatBE ((bytes.drop 38).take 4)
      let payload := bytes.drop headerLength
      if payload.length ≠ length then .error (.payloadLength length payload.length)
      else
        .ok { network := .ofNat (Bytes.toNatBE ((bytes.drop 2).take 4)), chain, payload }

/-- The digest of the signed form, by which a message is told from others. -/
def id (m : Message) : Except Fault (FixedBytes 32) := m.encode.map Hash.Sha256.digest

end Message

end StakeGuard
