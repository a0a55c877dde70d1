import StakeGuard.Text.Quoted

/-!
# Identifiers

Names of nodes, chains, subnets and staking transactions: byte strings of a width fixed by what they
name, ordered by their bytes, written in lower-case hexadecimal.
-/

namespace StakeGuard

/-- What an identifier is the name of. -/
inductive IdentifierKind where
  | node
  | chain
  | subnet
  | transaction
deriving DecidableEq

namespace IdentifierKind

/-- The number of bytes in a name. -/
def width : IdentifierKind → Nat
  | node => 20
  | chain => 32
  | subnet => 32
  | transaction => 32

/-- How a kind is called where an identifier is shown for debugging. -/
def label : IdentifierKind → String
  | node => "NodeId"
  | chain => "ChainId"
  | subnet => "SubnetId"
  | transaction => "TxId"

end IdentifierKind

/-- The name of a node, chain, subnet or transaction. Its kind fixes the width and keeps the four apart.
-/
structure Identifier (kind : IdentifierKind) where
  raw : FixedBytes kind.width
deriving DecidableEq

/-- The name of a node. -/
abbrev NodeId := Identifier .node

/-- The name of a chain whose messages are attested. -/
abbrev ChainId := Identifier .chain

/-- The name of a scope with a validator set of its own. -/
abbrev SubnetId := Identifier .subnet

/-- The name of the transaction that staked a validator. -/
abbrev TxId := Identifier .transaction

/-- Why bytes or a text name nothing: the wrong number of bytes, or text that is not hexadecimal. -/
inductive IdentifierError where
  | length (expected actual : Nat)
  | hex (reason : String)
deriving DecidableEq

namespace IdentifierError

/-- The name of an error's variant. -/
def kind : IdentifierError → String
  | length .. => "Length"
  | hex _ => "Hex"

/-- The text of an error. -/
def message : IdentifierError → String
  | length expected actual =>
    s!"Invalid identifier length: expected {expected} bytes, got {actual}"
  | hex reason => s!"Invalid identifier hex: {reason}"

end IdentifierError

namespace Identifier

variable {kind : IdentifierKind}

instance : Ord (Identifier kind) := ⟨fun a b => compare a.raw b.raw⟩

instance : Std.TransOrd (Identifier kind) :=
  inferInstanceAs (Std.TransCmp (compareOn Identifier.raw))

instance : Std.LawfulEqOrd (Identifier kind) where
  eq_of_compare {a b} h := by
    cases a; cases b
    exact congrArg Identifier.mk (Std.LawfulEqOrd.eq_of_compare h)

/-- The identifier of zeros, in every kind the default. -/
def zero : Identifier kind := ⟨.zero _⟩

instance : Inhabited (Identifier kind) := ⟨zero⟩

/-- The bytes of an identifier. -/
def bytes (id : Identifier kind) : Bytes := id.raw.bytes

/-- The identifier with the given bytes, which must have the right number. -/
def ofBytes (bytes : Bytes) : Except IdentifierError (Identifier kind) :=
  match FixedBytes.ofBytes? kind.width bytes with
  | none => .error (.length kind.width bytes.length)
  | some raw => .ok ⟨raw⟩

/-- The hexadecimal digits of an identifier, in lower case and without `0x`. -/
def text (id : Identifier kind) : String := Text.Hex.text id.bytes

instance : ToString (Identifier kind) := ⟨text⟩

/-- An identifier with its kind, as shown for debugging. -/
def shown (id : Identifier kind) : String := s!"{kind.label}({id.text})"

/-- What remains of a text after one leading `0x`. -/
def digitsOf : List Char → List Char
  | '0' :: 'x' :: rest => rest
  | text => text

/-- Reads hexadecimal text of either case, with or without a leading `0x`. -/
def parse (text : List Char) : Except IdentifierError (Identifier kind) :=
  match Text.Hex.decode (Text.utf8 (digitsOf text)) with
  | .error fault => .error (.hex fault.message)
  | .ok bytes => ofBytes bytes

end Identifier

/-- The scope of the network itself. -/
def primaryNetwork : SubnetId := .zero

/-- Whether a subnet is the network itself. -/
def Identifier.isPrimaryNetwork (subnet : SubnetId) : Bool := subnet = primaryNetwork

end StakeGuard
