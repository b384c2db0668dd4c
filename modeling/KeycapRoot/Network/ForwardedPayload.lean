import KeycapRoot.Network.RegisteredMessage

/-!
# Payloads that were read from before

A handler can pass on the stream that it was given. `put` copies the whole buffer of a stream, the
checksum covers as many bytes as are unread, from the start of the buffer, and the length prefix
counts the bytes that are unread: the three agree exactly on streams from which nothing has been
read (`sentAlike_iff_fresh`).
-/

namespace KeycapRoot.Network

open LittleEndian LittleEndian.Scalar KeycapRoot.Utility RegisteredMessage

/-- The read position is a `size_t`, and a frame with the stream's buffer fits in a vector. -/
structure MemoryStream.Storable (s : MemoryStream) : Prop where
  readPosition_lt : s.readPosition < 2 ^ 64
  fits : 22 + s.buffer.length ≤ maxSize

/-- Two streams cannot be told apart by what is sent for them, and what is sent for them has its
length in front. -/
structure SentAlike (checksum : Checksum) (s t : MemoryStream) : Prop where
  crc : ∀ (sender : UInt64) (command : RegisteredCommand),
    crc32 checksum [hash sender, hash command, hashStream s] =
      crc32 checksum [hash sender, hash command, hashStream t]
  put : ∀ target : MemoryStream, ∃ bytes,
    target.putStream s = target.append bytes ∧ target.putStream t = target.append bytes
  frame : ∀ (crc : UInt32) (sender : UInt64) (command : RegisteredCommand),
    encode { crc, sender, command, payload := s } = encode { crc, sender, command, payload := t }
  counted : ∀ (crc : UInt32) (sender : UInt64) (command : RegisteredCommand),
    let bytes := (encode { crc, sender, command, payload := s }).buffer
    declared bytes = (bytes.drop 8).length

/-- The prefix counts the bytes behind it exactly when nothing has been read from the payload. -/
theorem declared_encode_iff {m : RegisteredMessage} (h : m.payload.Storable) :
    declared m.encode.buffer = (m.encode.buffer.drop 8).length ↔ m.payload.readPosition = 0 := by
  have hread := h.readPosition_lt
  have hfits := h.fits
  unfold maxSize at hfits
  have hdecl : declared m.encode.buffer = (14 + m.payload.size) % 2 ^ 64 := by
    have happend := declared_encode_append m []
    rw [List.append_nil] at happend
    rw [happend, bodySize, UInt64.toNat_ofNat']
    rfl
  have hlen : (m.encode.buffer.drop 8).length = 14 + m.payload.buffer.length := by
    rw [List.length_drop, m.length_encode]
    omega
  rw [hdecl, hlen, MemoryStream.size]
  split <;> omega

variable {checksum : Checksum} {s t : MemoryStream}

theorem SentAlike.fresh (h : SentAlike checksum s t) (hs : s.Storable) : s.readPosition = 0 :=
  (declared_encode_iff (m := { command := .update, payload := s }) hs).1 (h.counted 0 0 .update)

theorem SentAlike.symm (h : SentAlike checksum s t) : SentAlike checksum t s where
  crc := fun sender command => (h.crc sender command).symm
  put := by
    intro target
    obtain ⟨bytes, hs, ht⟩ := h.put target
    exact ⟨bytes, ht, hs⟩
  frame := fun crc sender command => (h.frame crc sender command).symm
  counted := by
    intro crc sender command
    have hcounted := h.counted crc sender command
    rwa [h.frame] at hcounted

theorem sentAlike_refl (checksum : Checksum) (hs : s.Storable) (hfresh : s.readPosition = 0) :
    SentAlike checksum s s where
  crc := fun _ _ => rfl
  put := fun _ => ⟨s.buffer, rfl, rfl⟩
  frame := fun _ _ _ => rfl
  counted := fun crc sender command =>
    (declared_encode_iff (m := { crc, sender, command, payload := s }) hs).2 hfresh

/-- **Representations.** Two streams with the same unread bytes are sent alike, and with the length
of what is sent, if and only if nothing has been read from either of them. -/
theorem sentAlike_iff_fresh (checksum : Checksum) (hs : s.Storable) (ht : t.Storable)
    (hbytes : s.unread = t.unread) :
    SentAlike checksum s t ↔ s.readPosition = 0 ∧ t.readPosition = 0 := by
  constructor
  · intro h
    exact ⟨h.fresh hs, h.symm.fresh ht⟩
  · rintro ⟨hfresh, hfresh'⟩
    have hbuffer : s.buffer = t.buffer := by
      rwa [MemoryStream.unread, MemoryStream.unread, hfresh, hfresh', List.drop_zero,
        List.drop_zero] at hbytes
    have hsame : s = t := by
      cases s
      cases t
      cases hfresh
      cases hfresh'
      cases hbuffer
      rfl
    rw [← hsame]
    exact sentAlike_refl checksum hs hfresh

theorem sentAlike_iff_fresh_sample :
    SentAlike crc32Ieee (.ofBytes [1, 2]) (.ofBytes [1, 2]) ∧
      ¬ SentAlike crc32Ieee (.ofBytes [1, 2]) { readPosition := 1, buffer := [9, 1, 2] } := by
  have hs : (MemoryStream.ofBytes [1, 2]).Storable := ⟨by decide, by decide⟩
  have ht : MemoryStream.Storable { readPosition := 1, buffer := [9, 1, 2] } :=
    ⟨by decide, by decide⟩
  refine ⟨(sentAlike_iff_fresh crc32Ieee hs hs rfl).2 ⟨rfl, rfl⟩, ?_⟩
  intro h
  exact absurd ((sentAlike_iff_fresh crc32Ieee hs ht rfl).1 h).2 (by decide)

/-- A stream from which a byte has been read, and the stream of the bytes that are left in it: they
differ in their checksum and in what is put, and the first is not counted right. -/
theorem read_stream_not_sentAlike :
    let s : MemoryStream := { readPosition := 1, buffer := [9, 1, 2] }
    let t : MemoryStream := .ofBytes [1, 2]
    s.unread = t.unread ∧
      crc32 crc32Ieee [hash (7 : UInt64), hash RegisteredCommand.request, hashStream s] ≠
        crc32 crc32Ieee [hash (7 : UInt64), hash RegisteredCommand.request, hashStream t] ∧
      MemoryStream.putStream {} s ≠ MemoryStream.putStream {} t ∧
      ¬ SentAlike crc32Ieee s t := by
  refine ⟨rfl, by decide +kernel, by decide, ?_⟩
  intro h
  have hcounted := h.counted 0 7 .request
  exact absurd hcounted (by decide +kernel)

end KeycapRoot.Network
