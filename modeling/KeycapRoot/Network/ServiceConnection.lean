import KeycapRoot.Network.RegisteredMessage

/-!
# The receiving end of a service connection

`service_connection::on_data` collects what arrives in `input_stream_` and hands a message to the
user's `on_data` once `can_decode` says that it is complete. The lemmas say what it does with the
bytes collected so far: it waits (`onData_waits`), makes one call or none with all of them
(`onData_delivers`), throws in the middle of a header (`onData_throws`), or reads behind the end of
the buffer (`onData_undefined`).
-/

namespace KeycapRoot.Network

open LittleEndian LittleEndian.Scalar KeycapRoot.Utility RegisteredMessage

/-- The value inside a `service_type`. -/
abbrev ServiceType := UInt32

/-- A call of the user's `on_data`. -/
structure Call where
  service : ServiceType
  sender : UInt64
  payload : MemoryStream
  deriving DecidableEq, Repr

namespace ServiceConnection

/-- `send_answer(receiver, payload)`: the bytes that it passes to `send`. -/
def sendAnswer (checksum : Checksum) (receiver : UInt64) (payload : MemoryStream) : List UInt8 :=
  let msg : RegisteredMessage := {
    crc := crc32 checksum [hash receiver, hash RegisteredCommand.request, hashStream payload]
    sender := receiver
    command := .request
    payload }
  let stream := msg.encode
  stream.buffer.take stream.size

theorem sendAnswer_eq_frame (checksum : Checksum) (receiver : UInt64) (payload : Payload) :
    sendAnswer checksum receiver payload.stream =
      SentMessage.frame checksum { sender := receiver, command := .request, payload } :=
  -- the span over the encoded stream has the extent that a checksum of it would
  hashStream_of_fresh rfl

section OnData

variable (beyond : Beyond) (checksum : Checksum) (user : Call → Bool) (service : ServiceType)

/-- `on_data(router, service, data)` on the input stream. The result is its return value with the
calls of the user's `on_data`. -/
def onData (data : List UInt8) (inputStream : MemoryStream) :
    Outcome MemoryStream (Bool × List Call) :=
  let inputStream := inputStream.putBytes data
  match canDecode beyond inputStream with
  | .error e => .error e inputStream
  | .ok false => .ok (true, []) inputStream
  | .ok true =>
    (RegisteredMessage.decode beyond inputStream).andThen fun msg inputStream =>
      if !validateCrc32 checksum msg.crc
          [hash msg.sender, hash msg.command, hashStream msg.payload] then
        .ok (false, []) inputStream
      else
        let call : Call := { service, sender := msg.sender, payload := msg.payload }
        .ok (user call, [call]) inputStream

end OnData

/-- Where the user's `on_data` returns true, one that always does makes no difference. -/
theorem onData_of_accepted {beyond : Beyond} {checksum : Checksum} {user : Call → Bool}
    {service : ServiceType} {data : List UInt8} {s t : MemoryStream} {calls : List Call}
    (h : onData beyond checksum user service data s = .ok (true, calls) t) :
    onData beyond checksum (fun _ => true) service data s = .ok (true, calls) t := by
  unfold onData at h ⊢
  simp only at h ⊢
  split at h
  · cases h
  · exact h
  · rw [Outcome.andThen_eq_ok] at h ⊢
    obtain ⟨msg, rest, hdecode, hpassed⟩ := h
    refine ⟨msg, rest, hdecode, ?_⟩
    split at hpassed
    · cases hpassed
    · next hvalid =>
      rw [if_neg hvalid]
      simp only [Outcome.ok.injEq, Prod.mk.injEq] at hpassed ⊢
      exact ⟨⟨trivial, hpassed.1.2⟩, hpassed.2⟩

/-! ## One chunk -/

section OneChunk

variable (beyond : Beyond) (checksum : Checksum) (user : Call → Bool) (service : ServiceType)

/-- The call for the message that the bytes hold. -/
def callOf (bytes : List UInt8) : Call where
  service
  sender := (parse bytes).sender
  payload := (parse bytes).payload

/-- The checksum test of `on_data` on the message that the bytes hold. -/
def accepts (bytes : List UInt8) : Bool :=
  validateCrc32 checksum (parse bytes).crc
    [hash (parse bytes).sender, hash (parse bytes).command, hashStream (parse bytes).payload]

/-- What `on_data` does with the bytes collected so far, at least eight of them. -/
theorem onData_eq {had data bytes : List UInt8} (hb : had ++ data = bytes)
    (hlen : 8 ≤ bytes.length) :
    onData beyond checksum user service data (.ofBytes had) =
      if declared bytes ≤ bytes.length then
        (RegisteredMessage.decode beyond (.ofBytes bytes)).andThen fun msg s =>
          if !validateCrc32 checksum msg.crc
              [hash msg.sender, hash msg.command, hashStream msg.payload] then .ok (false, []) s
          else
            let call : Call := { service, sender := msg.sender, payload := msg.payload }
            .ok (user call, [call]) s
      else .ok (true, []) (.ofBytes bytes) := by
  have hput : (MemoryStream.ofBytes had).putBytes data = .ofBytes bytes := by
    rw [← hb]
    rfl
  rw [onData, hput, canDecode_eq beyond (by exact hlen)]
  by_cases h : declared bytes ≤ bytes.length
  · simp [h]
  · simp [h]

theorem onData_waits {had data bytes : List UInt8} (hb : had ++ data = bytes)
    (hlen : 8 ≤ bytes.length) (hshort : bytes.length < declared bytes) :
    onData beyond checksum user service data (.ofBytes had) = .ok (true, []) (.ofBytes bytes) := by
  rw [onData_eq _ _ _ _ hb hlen, if_neg (by omega)]

theorem onData_delivers {had data bytes : List UInt8} (hb : had ++ data = bytes)
    (hlen : 22 ≤ bytes.length) (hfull : declared bytes ≤ bytes.length) :
    onData beyond checksum user service data (.ofBytes had) =
      if accepts checksum bytes then
        .ok (user (callOf service bytes), [callOf service bytes]) {}
      else .ok (false, []) {} := by
  rw [onData_eq _ _ _ _ hb (by omega), if_pos hfull,
    decode_eq beyond (s := .ofBytes bytes) (by exact hlen)]
  by_cases h : accepts checksum bytes
  · have hv := h
    rw [accepts] at hv
    simp [h, hv, callOf]
  · have hv := h
    rw [accepts] at hv
    simp [h, hv]

theorem onData_throws {had data bytes : List UInt8} (hb : had ++ data = bytes)
    (hlen : 8 ≤ bytes.length) (hshort : bytes.length < 22)
    (hfull : declared bytes ≤ bytes.length) :
    ∃ e s, onData beyond checksum user service data (.ofBytes had) = .error e s := by
  rw [onData_eq _ _ _ _ hb hlen, if_pos hfull]
  cases hd : RegisteredMessage.decode beyond (.ofBytes bytes) with
  | ok m s =>
    have := ((decode_eq_ok_iff beyond).1 hd).1
    rw [MemoryStream.unread_ofBytes] at this
    omega
  | error e s => exact ⟨e, s, rfl⟩

theorem onData_undefined {had data bytes : List UInt8} (hb : had ++ data = bytes)
    (hpos : 0 < bytes.length) (hshort : bytes.length < 8) :
    ∃ s, onData (fun _ => none) checksum user service data (.ofBytes had) =
      .error .undefined s := by
  have hput : (MemoryStream.ofBytes had).putBytes data = .ofBytes bytes := by
    rw [← hb]
    rfl
  exact ⟨.ofBytes bytes, by
    rw [onData, hput, canDecode_undefined (s := .ofBytes bytes) (by exact hpos) (by exact hshort)]⟩

end OneChunk

/-! ## One frame -/

section OneFrame

variable (checksum : Checksum)

/-- The call of the user's `on_data` that a message is sent for. -/
def callFor (service : ServiceType) (m : SentMessage) : Call where
  service
  sender := m.sender
  payload := .ofBytes m.payload.bytes

theorem accepts_frame {m : SentMessage} (h : m.payload.Fresh) :
    accepts checksum (m.frame checksum) = true := by
  have hhash : hashStream m.payload.stream = hashStream (.ofBytes m.payload.bytes) := by
    rw [hashStream_of_fresh h, hashStream_of_fresh rfl, h.buffer]
    rfl
  rw [accepts, m.parse_frame_of_fresh checksum h, validateCrc32, beq_iff_eq,
    SentMessage.registered, hhash]

theorem callOf_frame {m : SentMessage} (h : m.payload.Fresh) (service : ServiceType) :
    callOf service (m.frame checksum) = callFor service m := by
  rw [callOf, m.parse_frame_of_fresh checksum h]
  rfl

/-- A frame that arrives whole is answered or refused, and nothing of it is kept. -/
theorem onData_frame (beyond : Beyond) (user : Call → Bool) (service : ServiceType)
    (m : SentMessage) :
    onData beyond checksum user service (m.frame checksum) {} =
      if accepts checksum (m.frame checksum) then
        .ok (user (callOf service (m.frame checksum)), [callOf service (m.frame checksum)]) {}
      else .ok (false, []) {} :=
  onData_delivers beyond checksum user service (List.nil_append _)
    (by rw [m.length_frame]; omega) (m.declared_frame_le checksum)

end OneFrame

end ServiceConnection

end KeycapRoot.Network
