import StakeGuard.Hash.Sha256

/-!
# Keyed hashing and key derivation

The keyed hash over SHA-256 and the two-step key derivation built on it: `extract` concentrates
keying material into one block, `expand` stretches that block to any length.
-/

namespace StakeGuard.Hash

/-- The keyed hash of a message; keys longer than a block are hashed first. -/
def hmac (key message : Bytes) : FixedBytes 32 :=
  let short := if key.length ≤ 64 then key else (Sha256.digest key).bytes
  let block := short ++ List.replicate (64 - short.length) 0
  let inner := Sha256.digest (block.map (· ^^^ 0x36) ++ message)
  Sha256.digest (block.map (· ^^^ 0x5c) ++ inner.bytes)

namespace Hkdf

/-- One pseudorandom block from a salt and keying material. -/
def extract (salt material : Bytes) : FixedBytes 32 := hmac salt material

/-- The blocks `count` down to 1 of the output stream: each is keyed by the pseudorandom block and
covers the block before it, the context and its own number. -/
def stream (key : FixedBytes 32) (info : Bytes) : (count : Nat) → (number : Nat) → Bytes → Bytes
  | 0, _, _ => []
  | count + 1, number, previous =>
    let next := (hmac key.bytes (previous ++ info ++ [UInt8.ofNat number])).bytes
    next ++ stream key info count (number + 1) next

/-- `length` bytes derived from a pseudorandom block for one context. -/
def expand (key : FixedBytes 32) (info : Bytes) (length : Nat) : Bytes :=
  (stream key info ((length + 31) / 32) 1 []).take length

end Hkdf

end StakeGuard.Hash
