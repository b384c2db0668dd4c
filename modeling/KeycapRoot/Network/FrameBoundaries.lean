import KeycapRoot.Network.BoundedReads

/-!
# Where a frame ends

`decode` does not look at the length prefix of a frame: the payload goes on to the end of what is
unread (`decodes_iff`). `can_decode` does, but it compares the length, which leaves the prefix out,
with all that is unread (`recognises_iff`), and it says nothing of the header that `decode` goes on
to read (`safe_iff`).
-/

namespace KeycapRoot.Network.RegisteredMessage

open LittleEndian LittleEndian.Scalar

variable {m : RegisteredMessage} {s : MemoryStream}

/-! ## Behind the frame -/

/-- `decode` gives the fields and the payload bytes of the message back, and leaves `rest`. -/
def Decodes (m : RegisteredMessage) (rest : List UInt8) (s : MemoryStream) : Prop :=
  ∀ beyond, ∃ d t, decode beyond s = .ok d t ∧ d.crc = m.crc ∧ d.sender = m.sender ∧
    d.command = m.command ∧ d.payload.unread = m.payload.unread ∧ t.unread = rest

theorem le_length_unread {rest : List UInt8} (h : s.unread = m.encode.buffer ++ rest) :
    22 ≤ s.unread.length := by
  rw [h, List.length_append, length_encode]
  omega

/-- **Frames in a stream.** A message that nothing was read from is decoded from its frame and what
follows it exactly if nothing follows. -/
theorem decodes_iff {rest : List UInt8} (hfresh : m.payload.readPosition = 0)
    (hs : s.unread = m.encode.buffer ++ rest) : m.Decodes rest s ↔ rest = [] := by
  have hdecode : ∀ beyond, decode beyond s =
      .ok { m with payload := .ofBytes (m.payload.buffer ++ rest) } {} := by
    intro beyond
    rw [decode_eq beyond (le_length_unread hs), hs, parse_encode_append]
  constructor
  · intro h
    obtain ⟨d, t, hd, -, -, -, -, hrest⟩ := h fun _ => none
    rw [hdecode] at hd
    cases hd
    exact hrest.symm
  · rintro rfl beyond
    refine ⟨_, _, hdecode beyond, rfl, rfl, rfl, ?_, rfl⟩
    rw [List.append_nil, MemoryStream.unread_ofBytes, MemoryStream.unread, hfresh, List.drop_zero]

/-- A request with a payload of two bytes. -/
def request : RegisteredMessage := { sender := 7, command := .request, payload := .ofBytes [1, 2] }

theorem decodes_iff_sample :
    request.Decodes [] (.ofBytes (request.encode.buffer ++ [])) ∧
      ¬ request.Decodes [16] (.ofBytes (request.encode.buffer ++ [16])) := by
  refine ⟨(decodes_iff rfl rfl).2 rfl, ?_⟩
  intro h
  exact absurd ((decodes_iff rfl rfl).1 h) (by decide)

/-- The first byte of the next frame becomes the last byte of the payload. -/
theorem next_frame_swallowed :
    decode (fun _ => none) (.ofBytes (request.encode.buffer ++ [16])) =
        .ok { request with payload := .ofBytes [1, 2, 16] } {} ∧
      ¬ request.Decodes [16] (.ofBytes (request.encode.buffer ++ [16])) := by
  have hdecode : decode (fun _ => none) (.ofBytes (request.encode.buffer ++ [16])) =
      .ok { request with payload := .ofBytes [1, 2, 16] } {} := by decide
  refine ⟨hdecode, ?_⟩
  intro h
  obtain ⟨d, t, hd, -, -, -, -, hrest⟩ := h fun _ => none
  rw [hdecode] at hd
  cases hd
  cases hrest

/-! ## Inside the frame -/

/-- `can_decode` says whether the whole frame is unread, and reads nothing behind the buffer. -/
def Recognises (m : RegisteredMessage) (s : MemoryStream) : Prop :=
  ∀ beyond, canDecode beyond s = .ok (decide (m.encode.buffer.length ≤ s.unread.length))

/-- The stream was cut somewhere in the frame, or behind it. -/
def CutOf (m : RegisteredMessage) (s : MemoryStream) : Prop :=
  s.unread <+: m.encode.buffer ∨ m.encode.buffer <+: s.unread

theorem CutOf.declared_eq (h : m.CutOf s) (hlen : 8 ≤ s.unread.length) :
    declared s.unread = m.bodySize.toNat := by
  rcases h with hfront | ⟨rest, hrest⟩
  · have hbody := declared_encode_append m []
    rw [List.append_nil] at hbody
    rw [List.prefix_iff_eq_take.1 hfront, declared_take hlen, hbody]
  · rw [← hrest, declared_encode_append]

/-- The unread bytes are fewer than either length, or at least both: the length that the prefix
declares and the length of the frame. -/
theorem recognises_iff_bodySize (hne : s.unread ≠ []) (hcut : m.CutOf s) :
    m.Recognises s ↔ 8 ≤ s.unread.length ∧
      (s.unread.length < m.bodySize.toNat ∧ s.unread.length < 22 + m.payload.buffer.length ∨
        m.bodySize.toNat ≤ s.unread.length ∧ 22 + m.payload.buffer.length ≤ s.unread.length) := by
  constructor
  · intro h
    by_cases hlen : 8 ≤ s.unread.length
    · have hcan := h fun _ => none
      rw [canDecode_eq _ hlen, hcut.declared_eq hlen, length_encode, Except.ok.injEq,
        decide_eq_decide] at hcan
      refine ⟨hlen, ?_⟩
      omega
    · have hcan := h fun _ => none
      rw [canDecode_undefined (List.length_pos_iff.2 hne) (Nat.lt_of_not_le hlen)] at hcan
      cases hcan
  · rintro ⟨hlen, hboth⟩ beyond
    rw [canDecode_eq beyond hlen, hcut.declared_eq hlen, length_encode, Except.ok.injEq,
      decide_eq_decide]
    omega

theorem bodySize_of_inside (hin : m.payload.Inside)
    (hfits : 22 + m.payload.buffer.length ≤ maxSize) :
    m.bodySize.toNat = 14 + m.payload.unread.length :=
  Payload.bodySize ⟨m.payload, hin, hfits⟩ m rfl

/-- **Cut frames.** A cut of a frame is recognised exactly if the prefix is whole and the cut is
before the length that it declares or behind the frame. The last eight bytes of a frame are
between the two; for a payload that was read past its end, the length wraps around. -/
theorem recognises_iff (hne : s.unread ≠ []) (hcut : m.CutOf s)
    (hfits : 22 + m.payload.buffer.length ≤ maxSize) :
    (m.payload.Inside → (m.Recognises s ↔ 8 ≤ s.unread.length ∧
      (s.unread.length < 14 + m.payload.unread.length ∨
        22 + m.payload.buffer.length ≤ s.unread.length))) ∧
    (¬ m.payload.Inside → (m.Recognises s ↔ 8 ≤ s.unread.length ∧
      (s.unread.length < m.bodySize.toNat ∧ s.unread.length < 22 + m.payload.buffer.length ∨
        m.bodySize.toNat ≤ s.unread.length ∧
          22 + m.payload.buffer.length ≤ s.unread.length))) := by
  refine ⟨?_, fun _ => recognises_iff_bodySize hne hcut⟩
  intro hin
  have hunread : m.payload.unread.length ≤ m.payload.buffer.length := by
    rw [MemoryStream.unread, List.length_drop]
    exact Nat.sub_le _ _
  rw [recognises_iff_bodySize hne hcut, bodySize_of_inside hin hfits]
  omega

theorem recognises_iff_sample :
    request.Recognises (.ofBytes (request.encode.buffer.take 15)) ∧
      ¬ request.Recognises (.ofBytes (request.encode.buffer.take 16)) := by
  have hcut : ∀ n, request.CutOf (.ofBytes (request.encode.buffer.take n)) :=
    fun n => Or.inl (List.take_prefix n _)
  refine ⟨((recognises_iff (by decide) (hcut 15) (by decide)).1 (by decide)).2 (by decide), ?_⟩
  intro h
  exact absurd (((recognises_iff (by decide) (hcut 16) (by decide)).1 (by decide)).1 h) (by decide)

/-- The frame of an empty message without its last eight bytes: `can_decode` says yes. -/
theorem cut_header_accepted :
    let m : RegisteredMessage := { sender := 7, command := .request, payload := {} }
    m.CutOf (.ofBytes (m.encode.buffer.take 14)) ∧
      canDecode (fun _ => none) (.ofBytes (m.encode.buffer.take 14)) = .ok true ∧
      (m.encode.buffer.take 14).length < m.encode.buffer.length ∧
      ¬ m.Recognises (.ofBytes (m.encode.buffer.take 14)) := by
  have hcan : canDecode (fun _ => none) (.ofBytes
      ((encode { sender := 7, command := .request, payload := {} }).buffer.take 14)) =
      .ok true := by decide
  refine ⟨Or.inl (List.take_prefix 14 _), hcan, by decide, ?_⟩
  intro h
  rw [Recognises] at h
  exact absurd (hcan.symm.trans (h fun _ => none)) (by decide)

/-! ## Any bytes -/

/-- What `can_decode` accepts is decoded without an exception and without a read behind the buffer,
and the read position is inside the buffer afterwards. -/
def Safe (s : MemoryStream) : Prop :=
  ∀ beyond, canDecode beyond s = .ok true →
    ∃ d t, (∀ beyond', decode beyond' s = .ok d t) ∧ t.Inside

theorem declared_eq_decode (bytes : List UInt8) :
    declared bytes = LittleEndian.decode (bytes.take 8) := by
  have hlt := LittleEndian.decode_lt (bytes.take 8)
  have hpow : 256 ^ (bytes.take 8).length ≤ 256 ^ 8 :=
    Nat.pow_le_pow_right (by decide) (by rw [List.length_take]; exact Nat.min_le_left _ _)
  exact UInt64.toNat_ofNat_of_lt' (Nat.lt_of_lt_of_le hlt hpow)

/-- With fewer than eight bytes unread, the rest of the length comes from behind the buffer. The
bytes that are unread are the low ones, so they bound it from below. -/
theorem canDecode_of_short {beyond : Beyond} (hne : s.unread ≠ []) (hlen : s.unread.length < 8)
    {accept : Bool} (h : canDecode beyond s = .ok accept) :
    ∃ n, declared s.unread ≤ n ∧ accept = decide (n ≤ s.unread.length) := by
  have hin := MemoryStream.inside_of_unread hne
  rw [canDecode, MemoryStream.peek, if_pos (MemoryStream.hasRemaining_of_unread hne _), Nat.zero_add] at h
  cases hload : s.load beyond s.readPosition (size UInt64) with
  | none =>
    rw [hload] at h
    cases h
  | some bytes =>
    obtain ⟨hbytes, hprefix⟩ := MemoryStream.prefix_of_load beyond hload
    change bytes.length = 8 at hbytes
    change s.unread.take 8 <+: bytes at hprefix
    rw [List.take_of_length_le (Nat.le_of_lt hlen)] at hprefix
    rw [hload, hin.size_eq] at h
    obtain ⟨more, rfl⟩ := hprefix
    refine ⟨declared (s.unread ++ more), ?_, (Except.ok.inj h).symm.trans ?_⟩
    · rw [declared_eq_decode, declared_eq_decode, List.take_of_length_le (Nat.le_of_lt hlen),
        List.take_of_length_le (Nat.le_of_eq hbytes)]
      exact LittleEndian.decode_le_append _ _
    · rw [declared, List.take_of_length_le (Nat.le_of_eq hbytes)]

/-- Zeros behind the buffer let `can_decode` accept the least length that it can find. -/
theorem canDecode_zeros (hne : s.unread ≠ []) (hlen : s.unread.length < 8) :
    canDecode (fun _ => some 0) s = .ok (decide (declared s.unread ≤ s.unread.length)) := by
  have hin := MemoryStream.inside_of_unread hne
  have hend : s.buffer.length ≤ s.readPosition + size UInt64 := by
    rw [MemoryStream.unread, List.length_drop] at hlen
    change s.buffer.length ≤ s.readPosition + 8
    omega
  have hload := MemoryStream.load_zeros hend
  rw [← MemoryStream.unread] at hload
  have hvalue : (ofBytes (s.unread ++ List.replicate (size UInt64 - s.unread.length) 0) :
      UInt64).toNat = declared s.unread := by
    rw [declared, List.take_of_length_le (Nat.le_of_lt hlen)]
    exact congrArg (fun n => (UInt64.ofNat n).toNat) (LittleEndian.decode_append_zeros _ _)
  rw [canDecode, MemoryStream.peek, if_pos (MemoryStream.hasRemaining_of_unread hne _), Nat.zero_add, hload,
    hin.size_eq]
  simp only [hvalue]

theorem canDecode_of_empty (beyond : Beyond) (h : s.unread = []) :
    canDecode beyond s = .error (.exception "Attempted to read past buffer end!") := by
  rw [canDecode, MemoryStream.peek, MemoryStream.hasRemaining_of_empty h]
  rfl

/-- A declared length that is not above the number of unread bytes is accepted over some memory. -/
theorem exists_canDecode (hne : s.unread ≠ []) (h : declared s.unread ≤ s.unread.length) :
    ∃ beyond, canDecode beyond s = .ok true := by
  rcases Nat.lt_or_ge s.unread.length 8 with hlen | hlen
  · exact ⟨_, (canDecode_zeros hne hlen).trans (by rw [decide_eq_true h])⟩
  · exact ⟨fun _ => none, (canDecode_eq _ hlen).trans (by rw [decide_eq_true h])⟩

/-- **Hostile frames.** Accepted bytes are decoded safely exactly if nothing is unread, or a whole
header, or less than the unread bytes declare. -/
theorem safe_iff (s : MemoryStream) :
    Safe s ↔ s.unread = [] ∨ 22 ≤ s.unread.length ∨ s.unread.length < declared s.unread := by
  constructor
  · intro h
    by_contra hnot
    rw [not_or, not_or, Nat.not_lt] at hnot
    obtain ⟨hne, hheader, hdeclared⟩ := hnot
    obtain ⟨beyond, hcan⟩ := exists_canDecode hne hdeclared
    obtain ⟨d, t, hdecode, -⟩ := h beyond hcan
    exact hheader ((decode_eq_ok_iff beyond).1 (hdecode beyond)).1
  · rintro (hempty | hheader | hdeclared) beyond hcan
    · rw [canDecode_of_empty beyond hempty] at hcan
      cases hcan
    · exact ⟨_, _, fun beyond' => decode_eq beyond' hheader, Nat.zero_le _⟩
    · exfalso
      rcases Nat.lt_or_ge s.unread.length 8 with hlen | hlen
      · have hne : s.unread ≠ [] := by
          intro hempty
          rw [canDecode_of_empty beyond hempty] at hcan
          cases hcan
        obtain ⟨n, hle, haccept⟩ := canDecode_of_short hne hlen hcan
        have hn := of_decide_eq_true haccept.symm
        omega
      · rw [canDecode_eq beyond hlen, Except.ok.injEq, decide_eq_true_eq] at hcan
        omega

/-- Eight zero bytes declare a length of zero: `can_decode` accepts them, and `decode` throws when
it gets to the checksum. -/
theorem zeros_not_safe :
    let s : MemoryStream := .ofBytes (List.replicate 8 0)
    canDecode (fun _ => none) s = .ok true ∧
      decode (fun _ => none) s =
        .error (.exception "Attempted to read past buffer end!") (s.skip 8) ∧
      ¬ Safe s := by
  have hcan : canDecode (fun _ => none) (.ofBytes (List.replicate 8 0)) = .ok true := by decide
  have hthrow : decode (fun _ => none) (.ofBytes (List.replicate 8 0)) =
      .error (.exception "Attempted to read past buffer end!")
        ((MemoryStream.ofBytes (List.replicate 8 0)).skip 8) := by decide
  refine ⟨hcan, hthrow, ?_⟩
  intro h
  obtain ⟨d, t, hdecode, -⟩ := h _ hcan
  cases hthrow.symm.trans (hdecode fun _ => none)

end KeycapRoot.Network.RegisteredMessage
