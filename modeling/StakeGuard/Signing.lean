import StakeGuard.Text.Hex

/-!
# Keys, signatures and what is asked of a signature scheme

Keys and signatures are their encoded bytes; they are compared and ordered by those bytes. What the
bytes mean is up to a `SignatureScheme`, a value that everything built on signatures takes as an
argument. A scheme may refuse to join keys or signatures; the functions of this module give each
refusal its error.
-/

namespace StakeGuard

/-- Why keys or signatures cannot be read, derived or joined. -/
inductive CryptoError where
  | invalidKeyLength (expected actual : Nat)
  | invalidPublicKey
  | invalidPrivateKey
  | invalidSignature
  | emptyAggregation
  | aggregationFailed
deriving DecidableEq

namespace CryptoError

/-- The name of an error's variant. -/
def kind : CryptoError → String
  | invalidKeyLength .. => "InvalidKeyLength"
  | invalidPublicKey => "InvalidPublicKey"
  | invalidPrivateKey => "InvalidPrivateKey"
  | invalidSignature => "InvalidSignature"
  | emptyAggregation => "EmptyAggregation"
  | aggregationFailed => "AggregationFailed"

/-- The text of an error. -/
def message : CryptoError → String
  | invalidKeyLength expected actual => s!"Invalid key length: expected {expected}, got {actual}"
  | invalidPublicKey => "Invalid public key"
  | invalidPrivateKey => "Invalid private key"
  | invalidSignature => "Invalid signature"
  | emptyAggregation => "Cannot aggregate an empty list"
  | aggregationFailed => "BLS aggregation failed"

end CryptoError

/-- The width of an encoded public key in bytes. -/
def publicKeyLength : Nat := 48

/-- The width of an encoded signature in bytes. -/
def signatureLength : Nat := 96

/-- An encoded public key. That the bytes encode one is checked where they are read, by `readPublicKey`,
and not by the type. -/
structure PublicKey where
  raw : FixedBytes publicKeyLength
deriving DecidableEq

instance : Ord PublicKey := ⟨fun a b => compare a.raw b.raw⟩

instance : Std.TransOrd PublicKey := inferInstanceAs (Std.TransCmp (compareOn PublicKey.raw))

instance : Std.LawfulEqOrd PublicKey where
  eq_of_compare {a b} h := by
    cases a; cases b
    exact congrArg PublicKey.mk (Std.LawfulEqOrd.eq_of_compare h)

instance : Inhabited PublicKey := ⟨⟨.zero _⟩⟩

/-- The first bytes of a key, in hexadecimal. -/
def PublicKey.shown (key : PublicKey) : String :=
  s!"BlsPublicKey({Text.Hex.text (key.raw.bytes.take 8)})"

/-- An encoded signature, checked where it is read, by `readSignature`. -/
structure Signature where
  raw : FixedBytes signatureLength
deriving DecidableEq

instance : Inhabited Signature := ⟨⟨.zero _⟩⟩

/-- The first bytes of a signature, in hexadecimal. -/
def Signature.shown (signature : Signature) : String :=
  s!"BlsSignature({Text.Hex.text (signature.raw.bytes.take 8)})"

/-- An encoded secret key, checked where it is read, by `readSecretKey`. -/
structure SecretKey where
  raw : FixedBytes 32
deriving DecidableEq

/-- The operations of a signature scheme whose signatures over one message can be joined. -/
structure SignatureScheme where
  /-- Whether the bytes encode a key that can be registered. -/
  isPublicKey : PublicKey → Bool
  /-- Whether the bytes encode a signature, which need not be one that some key could make. -/
  isSignature : Signature → Bool
  isSecretKey : SecretKey → Bool
  /-- A secret key derived from keying material, where there is enough of it. -/
  deriveSecret? : Bytes → Option SecretKey
  publicKey : SecretKey → PublicKey
  sign : SecretKey → Bytes → Signature
  /-- The key that stands for all of the given keys together. -/
  joinKeys? : List PublicKey → Option PublicKey
  /-- The signature that stands for all of the given signatures together. -/
  joinSignatures? : List Signature → Option Signature
  verify : PublicKey → Bytes → Signature → Bool

namespace SignatureScheme

variable (S : SignatureScheme)

/-- Reads a public key, checking its width first. -/
def readPublicKey (bytes : Bytes) : Except CryptoError PublicKey :=
  match FixedBytes.ofBytes? publicKeyLength bytes with
  | none => .error (.invalidKeyLength publicKeyLength bytes.length)
  | some raw => if S.isPublicKey ⟨raw⟩ then .ok ⟨raw⟩ else .error .invalidPublicKey

/-- Reads a signature, of which only the encoding is checked here. -/
def readSignature (raw : FixedBytes signatureLength) : Except CryptoError Signature :=
  if S.isSignature ⟨raw⟩ then .ok ⟨raw⟩ else .error .invalidSignature

/-- Reads a secret key. -/
def readSecretKey (raw : FixedBytes 32) : Except CryptoError SecretKey :=
  if S.isSecretKey ⟨raw⟩ then .ok ⟨raw⟩ else .error .invalidPrivateKey

/-- Derives a secret key; the same material always yields the same key. -/
def deriveSecretKey (material : Bytes) : Except CryptoError SecretKey :=
  match S.deriveSecret? material with
  | none => .error .invalidPrivateKey
  | some secret => .ok secret

/-- Joins public keys into the one that stands for all of them. -/
def aggregateKeys (keys : List PublicKey) : Except CryptoError PublicKey :=
  if keys.isEmpty then .error .emptyAggregation
  else
    match S.joinKeys? keys with
    | none => .error .aggregationFailed
    | some key => .ok key

/-- Joins signatures into the one that stands for all of them. -/
def aggregateSignatures (signatures : List Signature) : Except CryptoError Signature :=
  if signatures.isEmpty then .error .emptyAggregation
  else
    match S.joinSignatures? signatures with
    | none => .error .aggregationFailed
    | some signature => .ok signature

end SignatureScheme

end StakeGuard
