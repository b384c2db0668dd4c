import KeycapRoot.Utility.Crc32

/-!
# Registered messages

A frame is a length prefix of eight bytes, then checksum, sender, command and payload. The prefix
counts the bytes behind it (`bodySize`), but `can_decode` compares it with the size of the
whole frame, prefix included, and `decode` takes everything that follows the header for the
payload. `decode_eq_ok_iff` says exactly when `decode` returns, and what.
-/

namespace KeycapRoot.Network

open LittleEndian LittleEndian.Scalar KeycapRoot.Utility

/-- `registered_command`: an enumeration over `uint16`; the wire can hold any value of it. -/
structure RegisteredCommand where
  value : UInt16
  deriving DecidableEq, Repr

namespace RegisteredCommand

def update : RegisteredCommand := ⟨0⟩

def request : RegisteredCommand := ⟨1⟩

instance : Scalar RegisteredCommand := .via value mk fun _ => rfl

end RegisteredCommand

structure RegisteredMessage where
  crc : UInt32 := 0
  sender : UInt64 := 0
  command : RegisteredCommand
  payload : MemoryStream
  deriving DecidableEq, Repr

namespace RegisteredMessage

/-- The size that `encode` writes in front of a frame, computed in `uint64`. -/
def bodySize (m : RegisteredMessage) : UInt64 :=
  UInt64.ofNat (size UInt32 + size UInt64 + size RegisteredCommand + m.payload.size)

def encode (m : RegisteredMessage) : MemoryStream :=
  let encoder : MemoryStream := {}
  let encoder := encoder.put m.bodySize
  let encoder := encoder.put m.crc
  let encoder := encoder.put m.sender
  let encoder := encoder.put m.command
  encoder.putStream m.payload

section Decode

variable (beyond : Beyond)

def decode (decoder : MemoryStream) : Outcome MemoryStream RegisteredMessage :=
  (decoder.get beyond UInt64).andThen fun _ decoder =>
  (decoder.get beyond UInt32).andThen fun crc decoder =>
  (decoder.get beyond UInt64).andThen fun sender decoder =>
  (decoder.get beyond RegisteredCommand).andThen fun command decoder =>
  decoder.getRemaining.andThen fun payload decoder =>
  decoder.shrink.andThen fun _ decoder =>
  .ok { crc, sender, command, payload } decoder

def canDecode (decoder : MemoryStream) : Except Fault Bool :=
  match decoder.peek beyond UInt64 0 with
  | .ok n => .ok (decide (n.toNat ≤ decoder.size))
  | .error e => .error e

end Decode

/-! ## Frames -/

theorem buffer_encode (m : RegisteredMessage) :
    m.encode.buffer =
      toBytes m.bodySize ++ toBytes m.crc ++ toBytes m.sender ++ toBytes m.command ++
        m.payload.buffer := by
  simp only [encode, MemoryStream.put, MemoryStream.putStream, MemoryStream.append,
    List.nil_append]

/-- The header has 22 bytes, the prefix included. -/
theorem length_encode (m : RegisteredMessage) :
    m.encode.buffer.length = 22 + m.payload.buffer.length := by
  simp only [buffer_encode, List.length_append, length_toBytes]
  rfl

/-- The message whose frame the bytes are, if they are at least a header. -/
def parse (bytes : List UInt8) : RegisteredMessage where
  crc := ofBytes ((bytes.drop 8).take 4)
  sender := ofBytes ((bytes.drop 12).take 8)
  command := ofBytes ((bytes.drop 20).take 2)
  payload := .ofBytes (bytes.drop 22)

/-- A field of a frame that starts at `i`. -/
theorem field_eq {α : Type} [Scalar α] {bytes front back : List UInt8} {v : α} {i n : Nat}
    (h : bytes = front ++ (toBytes v ++ back)) (hi : front.length = i) (hn : size α = n) :
    ofBytes ((bytes.drop i).take n) = v := by
  have htake : (toBytes v ++ back).take n = toBytes v := by
    rw [← hn, ← length_toBytes v, List.take_left]
  rw [h, ← hi, List.drop_left, htake, ofBytes_toBytes]

/-- Whatever follows a frame is taken for the end of its payload. -/
theorem parse_encode_append (m : RegisteredMessage) (rest : List UInt8) :
    parse (m.encode.buffer ++ rest) =
      { m with payload := .ofBytes (m.payload.buffer ++ rest) } := by
  generalize hb : m.encode.buffer ++ rest = bytes
  have hsplit : bytes = toBytes m.bodySize ++ (toBytes m.crc ++ (toBytes m.sender ++
      (toBytes m.command ++ (m.payload.buffer ++ rest)))) := by
    simp only [← hb, buffer_encode, List.append_assoc]
  have hcrc : ofBytes ((bytes.drop 8).take 4) = m.crc :=
    field_eq hsplit (length_toBytes _) rfl
  have hsender : ofBytes ((bytes.drop 12).take 8) = m.sender :=
    field_eq (hsplit.trans (List.append_assoc ..).symm)
      (by simp only [List.length_append, length_toBytes]; rfl) rfl
  have hassoc : bytes = (toBytes m.bodySize ++ toBytes m.crc ++ toBytes m.sender) ++
      (toBytes m.command ++ (m.payload.buffer ++ rest)) := by
    simp only [hsplit, List.append_assoc]
  have hcommand : ofBytes ((bytes.drop 20).take 2) = m.command :=
    field_eq hassoc (by simp only [List.length_append, length_toBytes]; rfl) rfl
  have hpayload : bytes.drop 22 = m.payload.buffer ++ rest := by
    have hlen : (toBytes m.bodySize ++ toBytes m.crc ++ toBytes m.sender ++
        toBytes m.command).length = 22 := by
      simp only [List.length_append, length_toBytes]
      rfl
    rw [← hb, buffer_encode, List.append_assoc, ← hlen, List.drop_left]
  rw [parse, hcrc, hsender, hcommand, hpayload]

/-! ## Decoding -/

/-- The length that the bytes declare in their first eight bytes. -/
def declared (bytes : List UInt8) : Nat := (ofBytes (bytes.take 8) : UInt64).toNat

theorem declared_encode_append (m : RegisteredMessage) (rest : List UInt8) :
    declared (m.encode.buffer ++ rest) = m.bodySize.toNat := by
  have h : m.encode.buffer ++ rest = [] ++ (toBytes m.bodySize ++ (toBytes m.crc ++
      toBytes m.sender ++ toBytes m.command ++ m.payload.buffer ++ rest)) := by
    simp only [buffer_encode, List.append_assoc, List.nil_append]
  exact congrArg UInt64.toNat (field_eq (i := 0) (n := 8) h rfl rfl)

theorem declared_take {bytes : List UInt8} {n : Nat} (h : 8 ≤ n) :
    declared (bytes.take n) = declared bytes := by
  rw [declared, List.take_take, Nat.min_eq_left h, declared]

section Decode

variable (beyond : Beyond) {s t : MemoryStream}

theorem get_ok_state {α : Type} [Scalar α] {v : α} (h : s.get beyond α = .ok v t) :
    t = s.skip (size α) := by
  rw [MemoryStream.get] at h
  split at h
  · split at h
    · cases h; rfl
    · cases h
  · cases h

theorem getRemaining_ok_inside {p : MemoryStream} (h : s.getRemaining = .ok p t) : s.Inside := by
  rw [MemoryStream.getRemaining] at h
  split at h
  · assumption
  · cases h

/-- With a whole header unread, `decode` takes all unread bytes and leaves an empty stream. -/
theorem decode_eq (h : 22 ≤ s.unread.length) : decode beyond s = .ok (parse s.unread) {} := by
  have hin : s.Inside :=
    MemoryStream.inside_of_unread (List.ne_nil_of_length_pos (by omega))
  have hskip : ∀ n, (s.skip n).unread.length = s.unread.length - n := by
    intro n
    rw [MemoryStream.unread_skip, List.length_drop]
  have hget : ∀ (α : Type) [Scalar α] (n : Nat), n + size α ≤ 22 →
      (s.skip n).get beyond α =
        .ok (ofBytes ((s.unread.drop n).take (size α))) (s.skip (n + size α)) := by
    intro α _ n hn
    rw [MemoryStream.get_eq beyond (by rw [hskip]; omega), MemoryStream.unread_skip,
      MemoryStream.skip_skip]
  have hend : (s.skip 22).getRemaining = .ok (.ofBytes (s.unread.drop 22)) s.exhaust := by
    rw [MemoryStream.getRemaining_eq (hin.skip h), MemoryStream.unread_skip]
    rfl
  have h₁ : (s.skip 0).get beyond UInt64 = .ok _ (s.skip 8) := hget UInt64 0 (by decide)
  have h₂ : (s.skip 8).get beyond UInt32 = .ok _ (s.skip 12) := hget UInt32 8 (by decide)
  have h₃ : (s.skip 12).get beyond UInt64 = .ok _ (s.skip 20) := hget UInt64 12 (by decide)
  have h₄ : (s.skip 20).get beyond RegisteredCommand = .ok _ (s.skip 22) :=
    hget RegisteredCommand 20 (by decide)
  rw [MemoryStream.skip_zero] at h₁
  unfold decode
  simp only [h₁, h₂, h₃, h₄, hend, Outcome.andThen_ok, MemoryStream.shrink_eq s.inside_exhaust,
    MemoryStream.unread_exhaust]
  rfl

/-- **Decoding** returns exactly on streams with a whole header unread. -/
theorem decode_eq_ok_iff {m : RegisteredMessage} :
    decode beyond s = .ok m t ↔ 22 ≤ s.unread.length ∧ m = parse s.unread ∧ t = {} := by
  constructor
  · intro h
    have hlen : 22 ≤ s.unread.length := by
      simp only [decode, Outcome.andThen_eq_ok] at h
      obtain ⟨_, s₁, h₁, _, s₂, h₂, _, s₃, h₃, _, s₄, h₄, _, s₅, h₅, -⟩ := h
      -- the four reads move the position by 22, and it is still inside after them
      have hin : s₄.Inside := getRemaining_ok_inside h₅
      rw [get_ok_state beyond h₄, get_ok_state beyond h₃, get_ok_state beyond h₂,
        get_ok_state beyond h₁] at hin
      have hle : s.readPosition + 8 + 4 + 8 + 2 ≤ s.buffer.length := hin
      rw [MemoryStream.unread, List.length_drop]
      omega
    rw [decode_eq beyond hlen] at h
    cases h
    exact ⟨hlen, rfl, rfl⟩
  · rintro ⟨hlen, rfl, rfl⟩
    exact decode_eq beyond hlen

/-- With eight bytes unread, `can_decode` compares the length they declare with all that is
unread, themselves included. -/
theorem canDecode_eq (h : 8 ≤ s.unread.length) :
    canDecode beyond s = .ok (decide (declared s.unread ≤ s.unread.length)) := by
  have hin : s.Inside :=
    MemoryStream.inside_of_unread (List.ne_nil_of_length_pos (by omega))
  have hread : 0 + size UInt64 ≤ s.unread.length := by
    change 0 + 8 ≤ _
    omega
  have hpeek : s.peek beyond UInt64 0 = .ok (ofBytes (s.unread.take 8)) :=
    MemoryStream.peek_eq beyond hread
  rw [canDecode, hpeek, hin.size_eq]
  rfl

/-- With fewer, it reads behind the end of the buffer. -/
theorem canDecode_undefined (hpos : 0 < s.unread.length) (h : s.unread.length < 8) :
    canDecode (fun _ => none) s = .error .undefined := by
  have hload : s.load (fun _ => none) (0 + s.readPosition) (size UInt64) = none := by
    rw [MemoryStream.unread, List.length_drop] at hpos h
    have hend : s.buffer.length < 0 + s.readPosition + size UInt64 := by
      change _ < 0 + s.readPosition + 8
      omega
    exact MemoryStream.load_trap (by omega) hend
  rw [canDecode, MemoryStream.peek, if_pos (MemoryStream.hasRemaining_of_le hpos (Nat.le_refl _) _),
    hload]

end Decode

/-! ## Messages a caller can send -/

/-- `max_size()` of a vector of bytes. -/
def maxSize : Nat := 2 ^ 63 - 1

end RegisteredMessage

/-- A payload as a caller holds it: a stream that was not read past its end, and with which a frame
still fits in a vector. -/
structure Payload where
  stream : MemoryStream
  inside : stream.Inside
  fits : 22 + stream.buffer.length ≤ RegisteredMessage.maxSize

namespace Payload

/-- Nothing has been read from the payload. -/
def Fresh (p : Payload) : Prop := p.stream.readPosition = 0

/-- A fresh payload. -/
def ofBytes (bytes : List UInt8) (fits : 22 + bytes.length ≤ RegisteredMessage.maxSize) :
    Payload where
  stream := .ofBytes bytes
  inside := MemoryStream.inside_ofBytes bytes
  fits

/-- The bytes of the payload. -/
def bytes (p : Payload) : List UInt8 := p.stream.unread

@[simp] theorem fresh_ofBytes (bytes : List UInt8)
    (fits : 22 + bytes.length ≤ RegisteredMessage.maxSize) : (ofBytes bytes fits).Fresh := rfl

theorem Fresh.buffer {p : Payload} (h : p.Fresh) : p.stream.buffer = p.bytes := by
  have hstart : p.stream.readPosition = 0 := h
  rw [bytes, MemoryStream.unread, hstart, List.drop_zero]

theorem bodySize (p : Payload) (m : RegisteredMessage) (h : m.payload = p.stream) :
    m.bodySize.toNat = 14 + p.bytes.length := by
  have hfits := p.fits
  have hle : p.bytes.length ≤ p.stream.buffer.length := by
    rw [bytes, MemoryStream.unread, List.length_drop]
    omega
  have hsize : 4 + 8 + 2 + p.bytes.length < 2 ^ 64 := by
    rw [RegisteredMessage.maxSize] at hfits
    omega
  rw [RegisteredMessage.bodySize, h, p.inside.size_eq]
  exact (UInt64.toNat_ofNat_of_lt' hsize).trans (Nat.add_comm _ _ ▸ rfl)

end Payload

/-- A message that is sent: its checksum is computed from the rest. -/
structure SentMessage where
  sender : UInt64
  command : RegisteredCommand
  payload : Payload

namespace SentMessage

variable (checksum : Checksum) (m : SentMessage)

def registered : RegisteredMessage where
  crc := crc32 checksum [hash m.sender, hash m.command, hashStream m.payload.stream]
  sender := m.sender
  command := m.command
  payload := m.payload.stream

/-- The bytes of the message on the wire. -/
def frame : List UInt8 := (m.registered checksum).encode.buffer

theorem length_frame : (m.frame checksum).length = 22 + m.payload.stream.buffer.length :=
  RegisteredMessage.length_encode _

theorem declared_frame_append (rest : List UInt8) :
    RegisteredMessage.declared (m.frame checksum ++ rest) = 14 + m.payload.bytes.length := by
  rw [frame, RegisteredMessage.declared_encode_append, m.payload.bodySize _ rfl]

theorem parse_frame_append (rest : List UInt8) :
    RegisteredMessage.parse (m.frame checksum ++ rest) =
      { m.registered checksum with payload := .ofBytes (m.payload.stream.buffer ++ rest) } :=
  RegisteredMessage.parse_encode_append _ rest

theorem sender_parse_frame : (RegisteredMessage.parse (m.frame checksum)).sender = m.sender := by
  have hparse := m.parse_frame_append checksum []
  rw [List.append_nil] at hparse
  rw [hparse]
  rfl

theorem drop_frame : (m.frame checksum).drop 22 = m.payload.stream.buffer := by
  have hparse := m.parse_frame_append checksum []
  rw [List.append_nil, List.append_nil] at hparse
  exact congrArg (fun m : RegisteredMessage => m.payload.buffer) hparse

/-- A frame is never shorter than it declares. -/
theorem declared_frame_le :
    RegisteredMessage.declared (m.frame checksum) ≤ (m.frame checksum).length := by
  have hdecl := m.declared_frame_append checksum []
  have hbytes : m.payload.bytes.length ≤ m.payload.stream.buffer.length := by
    rw [Payload.bytes, MemoryStream.unread, List.length_drop]
    exact Nat.sub_le _ _
  rw [List.append_nil] at hdecl
  rw [hdecl, length_frame]
  omega

variable {m}

theorem length_frame_of_fresh (h : m.payload.Fresh) :
    (m.frame checksum).length = 22 + m.payload.bytes.length := by
  rw [length_frame, h.buffer]

theorem parse_frame_of_fresh (h : m.payload.Fresh) :
    RegisteredMessage.parse (m.frame checksum) =
      { m.registered checksum with payload := .ofBytes m.payload.bytes } := by
  have hparse := m.parse_frame_append checksum []
  rwa [List.append_nil, List.append_nil, h.buffer] at hparse

end SentMessage

end KeycapRoot.Network
