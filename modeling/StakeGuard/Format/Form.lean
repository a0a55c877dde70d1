import StakeGuard.Format.Json

/-!
# Forms

How values are written down and read back, as JSON and as bytes. A `Form` has a writer and a reader
for each of the two; forms of structures are put together from `Fields`, named parts in a fixed order.
In JSON a structure is an object, where unknown members are passed over and none may come twice, or an
array of its fields in order. In bytes everything has a fixed layout: numbers are little-endian,
lengths precede what they count, and a mark precedes what may be missing.
-/

namespace StakeGuard

/-- Writers and readers for values of a type. -/
structure Form (α : Type) where
  toJson : α → Json
  ofJson? : Json → Option α
  toBytes : α → Bytes
  /-- Reads a value off the front, and leaves the bytes after it. -/
  readBytes : Bytes → Option (α × Bytes)

namespace Form

variable {α β : Type}

/-- The value whose bytes the given ones begin with; what follows is passed over. -/
def ofBytes? (f : Form α) (bytes : Bytes) : Option α := (f.readBytes bytes).map (·.1)

/-- The first `n` bytes and the rest, if there are so many. -/
def takeBytes (n : Nat) (bytes : Bytes) : Option (Bytes × Bytes) :=
  if n ≤ bytes.length then some (bytes.take n, bytes.drop n) else none

/-- Numbers that fit `width` bytes. -/
def natural (width : Nat) : Form Nat where
  toJson := .ofNat
  ofJson? := Json.natural? (Bytes.capacity width)
  toBytes := Bytes.ofNatLE width
  readBytes bytes := (takeBytes width bytes).map fun (digits, rest) => (Bytes.toNatLE digits, rest)

/-- Values that stand for others: `read` may refuse what `write` never yields. -/
def convert (f : Form α) (write : β → α) (read : α → Option β) : Form β where
  toJson b := f.toJson (write b)
  ofJson? j := (f.ofJson? j).bind read
  toBytes b := f.toBytes (write b)
  readBytes bytes :=
    (f.readBytes bytes).bind fun (a, rest) => (read a).map fun b => (b, rest)

/-- Bytes. -/
def uint8 : Form UInt8 := (natural 1).convert UInt8.toNat fun n => some (.ofNat n)

/-- Words of 32 bits. -/
def uint32 : Form UInt32 := (natural 4).convert UInt32.toNat fun n => some (.ofNat n)

/-- Words of 64 bits. -/
def uint64 : Form UInt64 := (natural 8).convert UInt64.toNat fun n => some (.ofNat n)

/-- Truth values; in bytes, zero and one. -/
def bool : Form Bool where
  toJson := .bool
  ofJson? := Json.bool?
  toBytes b := [if b then 1 else 0]
  readBytes
    | 0 :: rest => some (false, rest)
    | 1 :: rest => some (true, rest)
    | _ => none

/-- A length or a number of items, as eight bytes. -/
def writeLength (n : Nat) : Bytes := Bytes.ofNatLE 8 n

/-- Bytes of a given number, and the rest, after their length. -/
def readCounted (bytes : Bytes) : Option (Bytes × Bytes) :=
  ((natural 8).readBytes bytes).bind fun (n, rest) => takeBytes n rest

/-- Texts; in bytes, UTF-8 after its length. -/
def text : Form String where
  toJson s := .string (.ofString s)
  ofJson? := Json.text?
  toBytes s :=
    let utf8 := Text.utf8 s.toList
    writeLength utf8.length ++ utf8
  readBytes bytes :=
    (readCounted bytes).bind fun (utf8, rest) =>
      (String.fromUTF8? ⟨utf8.toArray⟩).map fun s => (s, rest)

/-- As many values as asked for, off the front of the bytes. -/
def readMany (f : Form α) : (count : Nat) → Bytes → Option (List α × Bytes)
  | 0, bytes => some ([], bytes)
  | count + 1, bytes =>
    match f.readBytes bytes with
    | none => none
    | some (a, rest) =>
      match readMany f count rest with
      | none => none
      | some (as, rest) => some (a :: as, rest)

/-- Sequences of values; in bytes, after their number. -/
def list (f : Form α) : Form (List α) where
  toJson as := .array (as.map f.toJson)
  ofJson? j := j.items?.bind fun items => items.mapM f.ofJson?
  toBytes as := writeLength as.length ++ as.flatMap f.toBytes
  readBytes bytes := ((natural 8).readBytes bytes).bind fun (n, rest) => f.readMany n rest

/-- Values that may be missing: `null`, and in bytes a mark of zero or one in front. -/
def option (f : Form α) : Form (Option α) where
  toJson
    | none => .null
    | some a => f.toJson a
  ofJson?
    | .null => some none
    | j => (f.ofJson? j).map some
  toBytes
    | none => [0]
    | some a => 1 :: f.toBytes a
  readBytes
    | 0 :: rest => some (none, rest)
    | 1 :: rest => (f.readBytes rest).map fun (a, rest) => (some a, rest)
    | _ => none

/-- An array of exactly `width` bytes, with nothing around them in bytes. -/
def byteArray (width : Nat) : Form (FixedBytes width) where
  toJson b := .array (b.bytes.map uint8.toJson)
  ofJson? j :=
    (j.items?.bind fun items => items.mapM uint8.ofJson?).bind (FixedBytes.ofBytes? width)
  toBytes b := b.bytes
  readBytes bytes := (takeBytes width bytes).bind fun (b, rest) =>
    (FixedBytes.ofBytes? width b).map fun b => (b, rest)

/-- A byte string of exactly `width` bytes: in JSON an array of numbers, or a string that stands for
its own bytes; in bytes, after its length. -/
def byteString (width : Nat) : Form (FixedBytes width) where
  toJson := (byteArray width).toJson
  ofJson?
    | .string s => FixedBytes.ofBytes? width s.bytes
    | j => (byteArray width).ofJson? j
  toBytes b := writeLength width ++ b.bytes
  readBytes bytes := (readCounted bytes).bind fun (b, rest) =>
    (FixedBytes.ofBytes? width b).map fun b => (b, rest)

end Form

/-- Named parts of a structure, in order: their names, and forms of all parts at once. -/
structure Fields (α : Type) where
  names : List String
  toJson : α → List Json
  /-- Reads the parts, of which some may be missing. -/
  ofJson? : List (Option Json) → Option α
  toBytes : α → Bytes
  readBytes : Bytes → Option (α × Bytes)

namespace Fields

variable {α β : Type}

/-- One field, read by `missing` where it is not there. -/
def fieldOr (name : String) (f : Form α) (missing : Option α) : Fields α where
  names := [name]
  toJson a := [f.toJson a]
  ofJson?
    | [some j] => f.ofJson? j
    | [none] => missing
    | _ => none
  toBytes := f.toBytes
  readBytes := f.readBytes

/-- One field that must be there. -/
def field (name : String) (f : Form α) : Fields α := fieldOr name f none

/-- The fields of one structure and then those of another. -/
def and (f : Fields α) (g : Fields β) : Fields (α × β) where
  names := f.names ++ g.names
  toJson p := f.toJson p.1 ++ g.toJson p.2
  ofJson? parts :=
    match f.ofJson? (parts.take f.names.length), g.ofJson? (parts.drop f.names.length) with
    | some a, some b => some (a, b)
    | _, _ => none
  toBytes p := f.toBytes p.1 ++ g.toBytes p.2
  readBytes bytes :=
    match f.readBytes bytes with
    | none => none
    | some (a, rest) =>
      match g.readBytes rest with
      | none => none
      | some (b, rest) => some ((a, b), rest)

/-- What the members of an object say about fields: for each name its value, if there is one. Keys
must be texts, no name may come twice, and what is passed over must be well-formed. -/
def ofMembers? (names : List String) :
    List (JsonString × Json) → Option (List (String × Json))
  | [] => some []
  | (key, value) :: rest =>
    match key.text?, ofMembers? names rest with
    | some name, some found =>
      if name ∈ names then
        if found.any (·.1 = name) then none else some ((name, value) :: found)
      else if value.isClean then some found
      else none
    | _, _ => none

/-- The values of fields by name from an object, or by order from an array, whose last ones may be
missing. -/
def parts? (names : List String) : Json → Option (List (Option Json))
  | .object members =>
    (ofMembers? names members).map fun found =>
      names.map fun name => (found.find? (·.1 = name)).map (·.2)
  | .array items =>
    if items.length ≤ names.length then
      some (items.map some ++ List.replicate (names.length - items.length) none)
    else none
  | _ => none

/-- The form of a structure with these fields. In bytes they follow one another without names. -/
def form (f : Fields α) : Form α where
  toJson a := .object ((f.names.map JsonString.ofString).zip (f.toJson a))
  ofJson? j := (parts? f.names j).bind f.ofJson?
  toBytes := f.toBytes
  readBytes := f.readBytes

end Fields

end StakeGuard
