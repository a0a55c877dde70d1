import StakeGuard.Bls.Encoding
import StakeGuard.Bls.HashToCurve
import StakeGuard.Bls.Pairing
import StakeGuard.Hash.Hkdf
import StakeGuard.Signing

/-!
# The BLS signature scheme over BLS12-381

Public keys lie on the first curve, signatures on the second, and joining is addition of points.
Keys are checked for their subgroup when they are read; signatures when they are verified or joined.
-/

namespace StakeGuard.Bls

/-- The domain tag of signatures whose keys come with a proof of possession. -/
def domainTag : Bytes := "BLS_SIG_BLS12381G2_XMD:SHA-256_SSWU_RO_POP_".toUTF8.toList

/-- The salt of key derivation before it is hashed the first time. -/
def keySalt : Bytes := "BLS-SIG-KEYGEN-SALT-".toUTF8.toList

/-- Derives scalars from ever newly hashed salts until one is not zero, at most `fuel + 1` times. -/
def deriveScalar (material : Bytes) : (fuel : Nat) → (salt : Bytes) → Nat
  | fuel, salt =>
    let hashed := (Hash.Sha256.digest salt).bytes
    let block := Hash.Hkdf.extract hashed (material ++ [0])
    let scalar := Bytes.toNatBE (Hash.Hkdf.expand block (Bytes.ofNatBE 2 48) 48) % groupOrder
    match fuel with
    | 0 => scalar
    | fuel + 1 => if scalar = 0 then deriveScalar material fuel hashed else scalar

/-- The number that a secret key is, most significant byte first. -/
def scalar (secret : SecretKey) : Nat := Bytes.toNatBE secret.raw.bytes

/-- The points of the keys in a list, where each encodes one. -/
def keyPoints? (keys : List PublicKey) : Option (List G1) :=
  keys.mapM fun key => G1.decode? key.raw

/-- The points of the signatures in a list, where each encodes one of the subgroup. -/
def signaturePoints? (signatures : List Signature) : Option (List G2) :=
  signatures.mapM fun signature => (G2.decode? signature.raw).filter Point.inSubgroup

/-- Whether the pairing of the generator with the signature is that of the key with the message. -/
def verifyPoints (key : G1) (message : Bytes) (signature : G2) : Bool :=
  !key.isInfinity && key.inSubgroup && signature.inSubgroup
    && Pairing.productIsOne
      [(.generator, signature), (key.neg, HashToCurve.hash domainTag message)]

/-- The scheme itself. A signature is only decoded when it is read, so one outside the subgroup
can be held but is never accepted; secret keys are the non-zero numbers below the group's order. -/
def scheme : SignatureScheme where
  isPublicKey key :=
    match G1.decode? key.raw with
    | none => false
    | some p => !p.isInfinity && p.inSubgroup
  isSignature signature := (G2.decode? signature.raw).isSome
  isSecretKey secret := 0 < scalar secret ∧ scalar secret < groupOrder
  deriveSecret? material :=
    if material.length < 32 then none
    else some ⟨.ofNat 32 (deriveScalar material 255 keySalt)⟩
  publicKey secret := ⟨G1.encode (Point.multiple (scalar secret) G1.generator)⟩
  sign secret message :=
    ⟨G2.encode (Point.multiple (scalar secret) (HashToCurve.hash domainTag message))⟩
  joinKeys? keys := (keyPoints? keys).map fun ps => ⟨G1.encode (Point.sum ps)⟩
  joinSignatures? signatures := (signaturePoints? signatures).map fun ps => ⟨G2.encode (Point.sum ps)⟩
  verify key message signature :=
    match G1.decode? key.raw, G2.decode? signature.raw with
    | some p, some s => verifyPoints p message s
    | _, _ => false

end StakeGuard.Bls
