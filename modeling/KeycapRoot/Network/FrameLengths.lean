import KeycapRoot.Network.DamagedFrames
import KeycapRoot.Network.Reassembly

/-!
# What the length prefix decides

Nothing checks the length that a frame declares but the comparison of `can_decode`. A message that
is decoded and encoded again is the same message with the right length in front, whatever length it
came with (`relayed_frame`). And a prefix that declares more than has arrived, the prefix included,
keeps a connection waiting: it collects every byte from then on, and passes them on as one message
when there are as many as were declared (`gathered`).
-/

namespace KeycapRoot.Network

open LittleEndian LittleEndian.Scalar KeycapRoot.Utility RegisteredMessage

/-! ## Relaying -/

section Relaying

variable (beyond : Beyond) {s : MemoryStream}

instance : Scalar.Full RegisteredCommand :=
  ⟨fun _ h => UInt16.toNat_ofNat_of_lt' h⟩

/-- The bytes behind the prefix are those of the fields that are read from them. -/
theorem drop_eq_fields {bytes : List UInt8} (hlen : 22 ≤ bytes.length) :
    bytes.drop 8 = toBytes (parse bytes).crc ++ toBytes (parse bytes).sender ++
      toBytes (parse bytes).command ++ (parse bytes).payload.buffer := by
  have hfield (α : Type) [Scalar α] [Scalar.Full α] {i n : Nat} (hsize : size α = n)
      (hin : i + n ≤ 22) :
      toBytes (ofBytes ((bytes.drop i).take n) : α) = (bytes.drop i).take n := by
    refine toBytes_ofBytes ?_
    rw [List.length_take, List.length_drop, hsize]
    omega
  have hnext (i n : Nat) : (bytes.drop i).take n ++ bytes.drop (i + n) = bytes.drop i := by
    rw [← List.drop_drop, List.take_append_drop]
  have hcrc : toBytes (parse bytes).crc = (bytes.drop 8).take 4 := hfield UInt32 rfl (by decide)
  have hsender : toBytes (parse bytes).sender = (bytes.drop 12).take 8 :=
    hfield UInt64 rfl (by decide)
  have hcommand : toBytes (parse bytes).command = (bytes.drop 20).take 2 :=
    hfield RegisteredCommand rfl (by decide)
  rw [hcrc, hsender, hcommand, List.append_assoc, List.append_assoc]
  exact (hnext 8 4).symm.trans (congrArg _ ((hnext 12 8).symm.trans
    (congrArg _ (hnext 20 2).symm)))

theorem bodySize_parse {bytes : List UInt8} (hlen : 22 ≤ bytes.length) :
    (parse bytes).bodySize = UInt64.ofNat (bytes.length - 8) := by
  have hpayload : (parse bytes).payload.size = bytes.length - 22 := by
    rw [parse, MemoryStream.inside_ofBytes _ |>.size_eq, MemoryStream.unread_ofBytes,
      List.length_drop]
  rw [bodySize, hpayload]
  congr 1
  change 4 + 8 + 2 + (bytes.length - 22) = _
  omega

theorem buffer_encode_parse {bytes : List UInt8} (hlen : 22 ≤ bytes.length) :
    (parse bytes).encode.buffer = toBytes (UInt64.ofNat (bytes.length - 8)) ++ bytes.drop 8 := by
  rw [buffer_encode, bodySize_parse hlen, drop_eq_fields hlen]
  simp only [List.append_assoc]

/-- The prefix is put back exactly if it was the right one. -/
theorem prefix_eq_iff {bytes : List UInt8} (hlen : 8 ≤ bytes.length)
    (hfits : bytes.length ≤ maxSize) :
    toBytes (UInt64.ofNat (bytes.length - 8)) ++ bytes.drop 8 = bytes ↔
      declared bytes = bytes.length - 8 := by
  have hsplit := List.take_append_drop 8 bytes
  have hprefix : (bytes.take 8).length = size UInt64 := by
    rw [List.length_take]
    exact Nat.min_eq_left hlen
  have hfit : bytes.length - 8 < 2 ^ 64 := by
    rw [maxSize] at hfits
    omega
  rw [declared]
  constructor
  · intro h
    have hfront := List.append_inj_left (h.trans hsplit.symm)
      ((length_toBytes _).trans hprefix.symm)
    rw [← hfront, ofBytes_toBytes]
    exact UInt64.toNat_ofNat_of_lt' hfit
  · intro h
    rw [← h, UInt64.ofNat_toNat, toBytes_ofBytes hprefix, hsplit]

/-- **Relaying.** A message that is decoded, from whatever bytes, is encoded again as the same bytes
behind a length prefix of their number, so exactly those bytes if that is what they declared; what
is encoded is recognised, and decodes to the same message. -/
theorem relayed_frame (hlen : 22 ≤ s.unread.length) (hfits : s.unread.length ≤ maxSize) :
    ∃ m, RegisteredMessage.decode beyond s = .ok m {} ∧
      m.encode.buffer = toBytes (UInt64.ofNat (s.unread.length - 8)) ++ s.unread.drop 8 ∧
      (m.encode.buffer = s.unread ↔ declared s.unread = s.unread.length - 8) ∧
      canDecode beyond m.encode = .ok true ∧
      RegisteredMessage.decode beyond m.encode = .ok m {} := by
  have hbuffer := buffer_encode_parse hlen
  have hunread : (parse s.unread).encode.unread = (parse s.unread).encode.buffer := rfl
  have hlong : 22 ≤ (parse s.unread).encode.unread.length := by
    rw [hunread, RegisteredMessage.length_encode]
    exact Nat.le_add_right 22 _
  refine ⟨parse s.unread, decode_eq beyond hlen, hbuffer, ?_, ?_, ?_⟩
  · rw [hbuffer]
    exact prefix_eq_iff (by omega) hfits
  · have hdeclared := declared_encode_append (parse s.unread) []
    rw [List.append_nil, bodySize_parse hlen] at hdeclared
    have hcount : (parse s.unread).encode.buffer.length = s.unread.length := by
      rw [hbuffer, List.length_append, length_toBytes, List.length_drop]
      change 8 + (s.unread.length - 8) = _
      omega
    have hle : (UInt64.ofNat (s.unread.length - 8)).toNat ≤ s.unread.length :=
      Nat.le_trans (Nat.mod_le _ _) (Nat.sub_le _ _)
    rw [canDecode_eq beyond (by omega), hunread, hdeclared, hcount, decide_eq_true hle]
  · have hparse := parse_encode_append (parse s.unread) []
    rw [List.append_nil, List.append_nil] at hparse
    rw [decode_eq beyond hlong, hunread, hparse]
    rfl

-- a header of zeros comes back with its length
theorem relayed_frame_sample :
    ∃ m, RegisteredMessage.decode (fun _ => none) (.ofBytes (List.replicate 22 0)) = .ok m {} ∧
      m.encode.buffer = 14 :: List.replicate 21 0 ∧
      m.encode.buffer ≠ List.replicate 22 0 := by
  obtain ⟨m, hdecode, hbuffer, -⟩ :=
    relayed_frame (fun _ => none) (s := .ofBytes (List.replicate 22 0)) (by decide) (by decide)
  refine ⟨m, hdecode, hbuffer.trans (by decide), ?_⟩
  rw [hbuffer]
  decide

end Relaying

/-! ## Waiting -/

namespace ServiceConnection

section Waiting

variable (beyond : Beyond) (checksum : Checksum) (user : Call → Bool) (service : ServiceType)

theorem declared_append {had : List UInt8} (h8 : 8 ≤ had.length) (more : List UInt8) :
    declared (had ++ more) = declared had := by
  rw [← declared_take h8, List.take_left]

theorem waits_run {had : List UInt8} {chunks : List (List UInt8)} (h8 : 8 ≤ had.length)
    (hshort : (had ++ chunks.flatten).length < declared had) :
    Outcome.Accepts (onData beyond checksum user service) (.ofBytes had) chunks []
      (.ofBytes (had ++ chunks.flatten)) := by
  induction chunks generalizing had with
  | nil => exact Outcome.accepts_nil.2 ⟨rfl, by simp⟩
  | cons chunk chunks ih =>
    have hflat : had ++ (chunk :: chunks).flatten = (had ++ chunk) ++ chunks.flatten := by simp
    have hsame : declared (had ++ chunk) = declared had := declared_append h8 chunk
    rw [hflat] at hshort ⊢
    have hmore : (had ++ chunk).length ≤ ((had ++ chunk) ++ chunks.flatten).length := by simp
    have hlonger : 8 ≤ (had ++ chunk).length := by
      rw [List.length_append]
      omega
    have hshortNow : (had ++ chunk).length < declared (had ++ chunk) := by omega
    have hwaits := onData_waits beyond checksum user service rfl hlonger hshortNow
    exact Outcome.accepts_cons.2 ⟨[], [], _, hwaits, ih hlonger (by omega), rfl⟩

/-- **Waiting.** A first chunk of eight bytes or more and all chunks behind it are accepted and kept,
and none is passed on, however many messages are in them, as long as the first eight bytes declare
more than has arrived in all, these eight included. The chunk with which the declared number is
reached ends it: all that has arrived, if that is 22 bytes at least, is handed to the user as one
message, or is dropped if its checksum is not the right one; if it is less, the call fails. -/
theorem gathered {first : List UInt8} {chunks : List (List UInt8)} (h8 : 8 ≤ first.length)
    (hshort : (first ++ chunks.flatten).length < declared first) :
    Outcome.Accepts (onData beyond checksum user service) {} (first :: chunks) []
        (.ofBytes (first ++ chunks.flatten)) ∧
      ∀ last, let bytes := first ++ chunks.flatten ++ last
        declared first ≤ bytes.length →
        (22 ≤ bytes.length →
          onData beyond checksum user service last (.ofBytes (first ++ chunks.flatten)) =
            if accepts checksum bytes then
              .ok (user (callOf service bytes), [callOf service bytes]) {}
            else .ok (false, []) {}) ∧
        (bytes.length < 22 → ∃ fault t,
          onData beyond checksum user service last (.ofBytes (first ++ chunks.flatten)) =
            .error fault t) := by
  have hless : first.length ≤ (first ++ chunks.flatten).length := by simp
  refine ⟨?_, ?_⟩
  · have hfirst := onData_waits beyond checksum user service (List.nil_append first) h8 (by omega)
    exact Outcome.accepts_cons.2
      ⟨[], [], _, hfirst, waits_run beyond checksum user service h8 hshort, rfl⟩
  · intro last bytes hreached
    have hsame : declared bytes = declared first := by
      simp only [bytes, List.append_assoc]
      exact declared_append h8 _
    have hfull : declared bytes ≤ bytes.length := hsame ▸ hreached
    refine ⟨fun hlen => onData_delivers beyond checksum user service rfl hlen hfull, ?_⟩
    have h8 : 8 ≤ bytes.length := by
      rw [List.length_append]
      omega
    exact fun hlen => onData_throws beyond checksum user service rfl h8 hlen hfull

end Waiting

/-- Eight bytes that declare the greatest length, and a whole frame behind them. -/
theorem gathered_sample :
    Outcome.Accepts (onData (fun _ => none) crc32Ieee (fun _ => true) 1) {}
      [List.replicate 8 255, List.replicate 22 0] []
      (.ofBytes (List.replicate 8 255 ++ List.replicate 22 0)) :=
  (gathered (fun _ => none) crc32Ieee (fun _ => true) 1 (by decide) (by decide)).1

end ServiceConnection

end KeycapRoot.Network
