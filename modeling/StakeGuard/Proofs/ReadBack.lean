import StakeGuard.Format.Form

/-!
# Values are read back as they are written

A form reads a value back where it finds the value in the JSON it writes and at the front of the bytes
it writes (`Form.ReadsBack`). Numbers that fit and byte strings are read back (`Form.readsBack_natural`,
`Form.readsBack_byteString`); what is converted from such a value is read back if it is admitted, and
otherwise refused (`Form.ReadsBack.ofJson?_convert`, `Form.ReadsBack.ofBytes?_convert`).
-/

namespace StakeGuard

namespace Text

theorem digit?_digitChar : ∀ d < 10, digit? d.digitChar = some d := by decide

theorem digitsFrom_append (start : Nat) (front rest : List Char) :
    digitsFrom start (front ++ rest) = (digitsFrom start front).bind (digitsFrom · rest) := by
  induction front generalizing start with
  | nil => rfl
  | cons c front ih =>
    simp only [List.cons_append, digitsFrom, ih]
    cases digit? c <;> rfl

theorem digitsFrom_toDigits (n : Nat) : digitsFrom 0 (Nat.toDigits 10 n) = some n := by
  induction n using Nat.base_induction 10 (by decide) with
  | single d hd => simp [Nat.toDigits_of_lt_base hd, digitsFrom, digit?_digitChar d hd]
  | digit n d hd hn ih =>
    rw [← Nat.toDigits_append_toDigits (by decide) hn hd, digitsFrom_append, ih,
      Nat.toDigits_of_lt_base hd]
    simp [digitsFrom, digit?_digitChar d hd]

theorem digits?_toDigits (n : Nat) : digits? (Nat.toDigits 10 n) = some n := by
  rw [digits?, List.isEmpty_eq_false_iff.mpr Nat.toDigits_ne_nil, if_neg Bool.false_ne_true,
    digitsFrom_toDigits]

end Text

theorem Json.natural?_ofNat {bound n : Nat} (h : n < bound) : natural? bound (ofNat n) = some n := by
  simp [natural?, ofNat, Text.digits?_toDigits, h]

namespace Form

variable {α β : Type} {width : Nat}

theorem mapM_map_eq_some {write : α → β} {read : β → Option α} {as : List α}
    (h : ∀ a ∈ as, read (write a) = some a) : (as.map write).mapM read = some as := by
  induction as with
  | nil => rfl
  | cons a as ih =>
    rw [List.forall_mem_cons] at h
    rw [List.map_cons, List.mapM_cons, h.1, ih h.2]
    rfl

/-- A value is found again in the JSON and in the bytes that it is written as. -/
structure ReadsBack (f : Form α) (a : α) : Prop where
  ofJson?_toJson : f.ofJson? (f.toJson a) = some a
  readBytes_toBytes : ∀ rest, f.readBytes (f.toBytes a ++ rest) = some (a, rest)

theorem takeBytes_append {front : Bytes} (h : front.length = width) (rest : Bytes) :
    takeBytes width (front ++ rest) = some (front, rest) := by
  rw [takeBytes, if_pos (by simp [← h]), List.take_left' h, List.drop_left' h]

/-- A number that fits the width is read back. -/
theorem readsBack_natural {n : Nat} (h : n < Bytes.capacity width) : (natural width).ReadsBack n where
  ofJson?_toJson := Json.natural?_ofNat h
  readBytes_toBytes rest := by
    simp [natural, takeBytes_append (Bytes.length_ofNatLE width n) rest, Bytes.toNatLE_ofNatLE h]

section convert

variable {f : Form α} {write : β → α} {b : β} (h : f.ReadsBack (write b))
include h

/-- What is converted from a value that is read back is read as `read` says. -/
theorem ReadsBack.ofJson?_convert (read : α → Option β) :
    (f.convert write read).ofJson? ((f.convert write read).toJson b) = read (write b) := by
  simp [convert, h.ofJson?_toJson]

theorem ReadsBack.ofBytes?_convert (read : α → Option β) :
    (f.convert write read).ofBytes? ((f.convert write read).toBytes b) = read (write b) := by
  have hbytes := h.readBytes_toBytes []
  rw [List.append_nil] at hbytes
  cases hread : read (write b) <;> simp [ofBytes?, convert, hbytes, hread]

/-- It is read back where `read` undoes `write`. -/
theorem ReadsBack.convert {read : α → Option β} (hread : read (write b) = some b) :
    (f.convert write read).ReadsBack b where
  ofJson?_toJson := (h.ofJson?_convert read).trans hread
  readBytes_toBytes rest := by simp [Form.convert, h.readBytes_toBytes, hread]

end convert

theorem readsBack_uint8 (b : UInt8) : uint8.ReadsBack b :=
  (readsBack_natural b.toNat_lt).convert (congrArg some (UInt8.ofNat_toNat))

theorem readsBack_byteArray (a : FixedBytes width) : (byteArray width).ReadsBack a where
  ofJson?_toJson := by
    have hitems := mapM_map_eq_some fun b (_ : b ∈ a.bytes) => (readsBack_uint8 b).ofJson?_toJson
    simp only [byteArray, Json.items?, Option.bind_some, hitems, FixedBytes.ofBytes?_bytes]
  readBytes_toBytes rest := by simp [byteArray, takeBytes_append a.length_bytes]

theorem readCounted_append {front : Bytes} (h : front.length < Bytes.capacity 8) (rest : Bytes) :
    readCounted (writeLength front.length ++ (front ++ rest)) = some (front, rest) := by
  have hlength : (natural 8).readBytes (writeLength front.length ++ (front ++ rest)) =
      some (front.length, front ++ rest) :=
    (readsBack_natural h).readBytes_toBytes (front ++ rest)
  rw [readCounted, hlength]
  exact takeBytes_append rfl rest

/-- A byte string whose width can be counted in a word is read back. -/
theorem readsBack_byteString (h : width < Bytes.capacity 8) (a : FixedBytes width) :
    (byteString width).ReadsBack a where
  ofJson?_toJson := (readsBack_byteArray a).ofJson?_toJson
  readBytes_toBytes rest := by
    have hcounted := readCounted_append (a.length_bytes.symm ▸ h) rest
    rw [a.length_bytes] at hcounted
    simp [byteString, hcounted]

end Form

end StakeGuard
