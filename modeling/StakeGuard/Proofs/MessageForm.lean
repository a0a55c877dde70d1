import StakeGuard.Verifier

/-!
# The signed form of a message

A byte string is laid out as a message where each field of the message stands at its place
(`Message.LaidOut`). Only such bytes are encoded (`Message.encode_eq_ok_iff`), and only such are
decoded (`Message.decode_eq_ok_iff`). Main statement: every message whose payload's length is a number
of 32 bits has one form, and every byte string with a sound header is the form of one message
(`Message.one_form_per_message`).
-/

namespace StakeGuard.Message

variable {m : Message} {bytes : Bytes}

/-- A header is sound where it is complete, has the only version that is known, and counts what comes
after it. -/
structure SoundHeader (bytes : Bytes) : Prop where
  complete : 42 ≤ bytes.length
  version : bytes.take 2 = [0, 0]
  length : Bytes.toNatBE ((bytes.drop 38).take 4) = (bytes.drop 42).length

/-- The fields of a message stand in the bytes at the places that the header has for them. -/
structure LaidOut (m : Message) (bytes : Bytes) : Prop extends SoundHeader bytes where
  network : Bytes.toNatBE ((bytes.drop 2).take 4) = m.network.toNat
  chain : (bytes.drop 6).take 32 = m.chain.bytes
  payload : bytes.drop 42 = m.payload

/-! ## Fields -/

theorem length_field {start width : Nat} (h : start + width ≤ bytes.length) :
    ((bytes.drop start).take width).length = width := by
  rw [List.length_take, List.length_drop]
  omega

theorem field_append {front part rest : Bytes} {start width : Nat} (hstart : front.length = start)
    (hwidth : part.length = width) : ((front ++ (part ++ rest)).drop start).take width = part := by
  rw [List.drop_left' hstart, List.take_left' hwidth]

/-- Bytes are their fields in a row. -/
theorem append_fields (bytes : Bytes) :
    bytes.take 2 ++ (bytes.drop 2).take 4 ++ (bytes.drop 6).take 32 ++ (bytes.drop 38).take 4
      ++ bytes.drop 42 = bytes := by
  have hsplit (start width : Nat) :
      (bytes.drop start).take width ++ bytes.drop (start + width) = bytes.drop start := by
    rw [← List.drop_drop, List.take_append_drop]
  rw [List.append_assoc, hsplit 38 4, List.append_assoc, hsplit 6 32, List.append_assoc, hsplit 2 4,
    List.take_append_drop]

/-- A field that writes a number is the form of the number in as many bytes. -/
theorem ofNatBE_of_field {start width n : Nat} (hwidth : start + width ≤ bytes.length)
    (h : Bytes.toNatBE ((bytes.drop start).take width) = n) :
    Bytes.ofNatBE width n = (bytes.drop start).take width := by
  have hback := Bytes.ofNatBE_toNatBE ((bytes.drop start).take width)
  rwa [length_field hwidth, h] at hback

/-! ## Encoding -/

/-- The fields one after the other are laid out as the message. -/
theorem laidOut_of_lt (h : m.payload.length < payloadBound) :
    m.LaidOut (Bytes.ofNatBE 2 version ++ Bytes.ofNatBE 4 m.network.toNat ++ m.chain.bytes
      ++ Bytes.ofNatBE 4 m.payload.length ++ m.payload) := by
  have hchain : m.chain.bytes.length = 32 := m.chain.raw.length_bytes
  have hpayload : List.drop 42 (Bytes.ofNatBE 2 version ++ Bytes.ofNatBE 4 m.network.toNat
      ++ m.chain.bytes ++ Bytes.ofNatBE 4 m.payload.length ++ m.payload) = m.payload :=
    List.drop_left' (by simp [hchain])
  refine ⟨⟨?complete, ?version, ?length⟩, ?network, ?chain, hpayload⟩
  case complete =>
    simp [hchain]
    omega
  case version =>
    simp only [List.append_assoc]
    exact List.take_left' (Bytes.length_ofNatBE 2 version)
  case length =>
    rw [hpayload, List.append_assoc, field_append (by simp [hchain]) (Bytes.length_ofNatBE ..),
      Bytes.toNatBE_ofNatBE h]
  case network =>
    simp only [List.append_assoc]
    rw [field_append (Bytes.length_ofNatBE ..) (Bytes.length_ofNatBE ..),
      Bytes.toNatBE_ofNatBE m.network.toNat_lt]
  case chain =>
    rw [List.append_assoc, List.append_assoc]
    exact field_append (by simp) hchain

namespace LaidOut

variable (h : m.LaidOut bytes)
include h

/-- The length of the payload is written in four bytes, so it is a number of 32 bits. -/
theorem payload_lt : m.payload.length < payloadBound := by
  have hlt := Bytes.toNatBE_lt ((bytes.drop 38).take 4)
  rwa [length_field h.complete, h.length, h.payload] at hlt

theorem encode_eq_ok : m.encode = .ok bytes := by
  have hcomplete := h.complete
  have hversion : Bytes.ofNatBE 2 Message.version = bytes.take 2 := h.version.symm
  rw [encode, if_pos h.payload_lt, hversion, ofNatBE_of_field (by omega) h.network, ← h.chain,
    ← h.payload, ofNatBE_of_field hcomplete h.length, append_fields]

theorem decode_eq_ok : decode bytes = .ok m := by
  have hcomplete : ¬bytes.length < headerLength := Nat.not_lt.mpr h.complete
  have hversion : Bytes.toNatBE (bytes.take 2) = Message.version := by rw [h.version]; rfl
  have hlength : Bytes.toNatBE ((bytes.drop 38).take 4) = m.payload.length :=
    h.length.trans (congrArg List.length h.payload)
  have hpayload : bytes.drop headerLength = m.payload := h.payload
  rw [decode, dif_neg hcomplete]
  simp only [hversion, hlength, ne_eq, not_true_eq_false, if_false, hpayload, h.network,
    UInt32.ofNat_toNat]
  congr 2
  exact congrArg Identifier.mk (FixedBytes.ext h.chain)

end LaidOut

/-- The bytes that a message is encoded as are those that are laid out as it. -/
theorem encode_eq_ok_iff : m.encode = .ok bytes ↔ m.LaidOut bytes := by
  refine ⟨fun h => ?_, LaidOut.encode_eq_ok⟩
  unfold encode at h
  split at h
  next hbound =>
    cases h
    exact laidOut_of_lt hbound
  next => cases h

/-! ## Decoding -/

/-- Under a sound header there is a message, which takes the fields as they stand. -/
theorem SoundHeader.exists_laidOut (h : SoundHeader bytes) : ∃ m : Message, m.LaidOut bytes := by
  have hcomplete := h.complete
  have hnetwork : Bytes.toNatBE ((bytes.drop 2).take 4) < 2 ^ 32 := by
    have hlt := Bytes.toNatBE_lt ((bytes.drop 2).take 4)
    rwa [length_field (by omega)] at hlt
  refine ⟨⟨.ofNat (Bytes.toNatBE ((bytes.drop 2).take 4)),
    ⟨⟨(bytes.drop 6).take 32, length_field (by omega)⟩⟩, bytes.drop 42⟩, ?_⟩
  exact {
    toSoundHeader := h
    network := by rw [UInt32.toNat_ofNat', Nat.mod_eq_of_lt hnetwork]
    chain := rfl
    payload := rfl }

theorem soundHeader_of_decode (h : decode bytes = .ok m) : SoundHeader bytes := by
  unfold decode at h
  split at h
  next => cases h
  next hcomplete =>
    have hcomplete : 42 ≤ bytes.length := Nat.not_lt.mp hcomplete
    dsimp only at h
    split at h
    next => cases h
    next hversion =>
      split at h
      next => cases h
      next hlength =>
        have hwidth : (bytes.take 2).length = 2 := by
          rw [List.length_take]
          omega
        exact {
          complete := hcomplete
          version := Bytes.eq_of_toNatBE_eq hwidth (Decidable.not_not.mp hversion)
          length := (Decidable.not_not.mp hlength).symm }

/-- The message that bytes are decoded as is the one as which they are laid out. -/
theorem decode_eq_ok_iff : decode bytes = .ok m ↔ m.LaidOut bytes := by
  refine ⟨fun h => ?_, LaidOut.decode_eq_ok⟩
  obtain ⟨m', hm'⟩ := (soundHeader_of_decode h).exists_laidOut
  rw [hm'.decode_eq_ok] at h
  cases h
  exact hm'

/-! ## One form for each message -/

/-- What malforms a message is reported by whoever would sign it. -/
theorem sign_of_encode_eq_error {fault : Fault} (h : m.encode = .error fault) (S : SignatureScheme)
    (secret : SecretKey) :
    (Signer.mk secret m.network m.chain).sign S m = .error (.malformedMessage fault.message) := by
  simp [Signer.sign, h]

/-- **Each message has exactly one form.** A message with a payload of up to `2 ^ 32 - 1` bytes is encoded
and is decoded from what it is encoded as. A longer payload makes a message malformed, so that it has no
digest and is signed by nobody. Bytes are decoded where they have a sound header, and then they are what
the message is encoded as. No bytes encode two messages. -/
theorem one_form_per_message (m : Message) (bytes : Bytes) :
    (m.payload.length ≤ 0xffffffff → ∃ form, m.encode = .ok form ∧ decode form = .ok m) ∧
    (0xffffffff < m.payload.length →
      m.encode = .error (.payloadTooLong m.payload.length) ∧
      m.id = .error (.payloadTooLong m.payload.length) ∧
      ∀ S secret, (Signer.mk secret m.network m.chain).sign S m =
        .error (.malformedMessage s!"payload of {m.payload.length} bytes exceeds u32 length")) ∧
    ((∃ m, decode bytes = .ok m) ↔ SoundHeader bytes) ∧
    (decode bytes = .ok m → m.encode = .ok bytes) ∧
    ∀ m', m.encode = .ok bytes → m'.encode = .ok bytes → m = m' := by
  refine ⟨fun h => ?_, fun h => ?_, ⟨?_, ?_⟩, fun h => ?_, fun m' h h' => ?_⟩
  · have hlaid := laidOut_of_lt (m := m) (Nat.lt_succ_of_le h)
    exact ⟨_, hlaid.encode_eq_ok, hlaid.decode_eq_ok⟩
  · have hencode : m.encode = .error (.payloadTooLong m.payload.length) :=
      if_neg (Nat.not_lt.mpr h)
    exact ⟨hencode, by rw [id, hencode]; rfl, sign_of_encode_eq_error hencode⟩
  · rintro ⟨m, hm⟩
    exact soundHeader_of_decode hm
  · intro hsound
    obtain ⟨m, hm⟩ := hsound.exists_laidOut
    exact ⟨m, hm.decode_eq_ok⟩
  · exact (decode_eq_ok_iff.mp h).encode_eq_ok
  · rw [encode_eq_ok_iff, ← decode_eq_ok_iff] at h h'
    exact Except.ok.inj (h.symm.trans h')

/-- A header of zeros has no payload, so it is sound as it is, and not with another byte after it. -/
example :
    decode (List.replicate 42 0) = .ok ⟨0, .zero, []⟩ ∧
      decode (List.replicate 43 0) = .error (.payloadLength 0 1) :=
  ⟨rfl, rfl⟩

end StakeGuard.Message
