import KeycapRoot.Network.ServiceLocator
import KeycapRoot.Utility.BurstErrors

/-!
# Frames that are damaged on the way

The checksum of a frame covers its sender, command and payload. A frame that arrives with another
checksum, or with a burst of no more than 32 bits that lies within what the checksum covers, is
refused at both ends: `service_connection::on_data` calls nobody, and `service_locator::on_data`
posts nothing and keeps its pending requests (`damaged_frame_refused`). A burst across the checksum
and what it covers can go unnoticed. The length prefix is not covered: with a damaged one the
message is handed on unchanged, or it waits (`damaged_prefix_unnoticed`).
-/

namespace KeycapRoot.Network

open LittleEndian LittleEndian.Scalar KeycapRoot.Utility RegisteredMessage ShiftRegister

/-- What arrives of a frame of which either the checksum is damaged, in whatever way, or what that
covers, by a burst of no more than 32 bits. -/
inductive Damaged (frame : List UInt8) : List UInt8 → Prop
  | checksum {bytes : List UInt8} (hlen : bytes.length = frame.length)
      (hfront : bytes.take 8 = frame.take 8) (hcovered : bytes.drop 12 = frame.drop 12)
      (hne : bytes ≠ frame) : Damaged frame bytes
  | covered {bytes : List UInt8} (hfront : bytes.take 12 = frame.take 12)
      (hburst : Differ 32 (bitsOf (frame.drop 12)) (bitsOf (bytes.drop 12))) :
      Damaged frame bytes

theorem length_bitsOf (bytes : List UInt8) : (bitsOf bytes).length = 8 * bytes.length := by
  induction bytes with
  | nil => rfl
  | cons b bytes ih =>
    rw [bitsOf_cons, List.length_append, ih, length_bits, List.length_cons]
    omega

/-- The test of the checksum compares the third field with the checksum of all that follows it. -/
theorem accepts_iff {checksum : Checksum} {bytes : List UInt8} (hlen : 22 ≤ bytes.length) :
    ServiceConnection.accepts checksum bytes = true ↔
      (ofBytes ((bytes.drop 8).take 4) : UInt32) = checksum (bytes.drop 12) := by
  have hsender : toBytes (ofBytes ((bytes.drop 12).take 8) : UInt64) = (bytes.drop 12).take 8 :=
    toBytes_ofBytes (by rw [List.length_take, List.length_drop]; change _ = 8; omega)
  have hcommand : toBytes (ofBytes ((bytes.drop 20).take 2) : RegisteredCommand) =
      (bytes.drop 20).take 2 :=
    toBytes_ofBytes (α := UInt16) (by rw [List.length_take, List.length_drop]; change _ = 2; omega)
  have hcovered : (bytes.drop 12).take 8 ++ ((bytes.drop 20).take 2 ++ bytes.drop 22) =
      bytes.drop 12 := by
    have h20 : bytes.drop 20 = (bytes.drop 12).drop 8 := by rw [List.drop_drop]
    have h22 : bytes.drop 22 = (bytes.drop 20).drop 2 := by rw [List.drop_drop]
    rw [h22, List.take_append_drop, h20, List.take_append_drop]
  have hhashed : [Utility.hash (parse bytes).sender, Utility.hash (parse bytes).command,
      hashStream (parse bytes).payload].flatten = bytes.drop 12 := by
    rw [List.flatten_cons, List.flatten_cons, List.flatten_cons, List.flatten_nil, List.append_nil,
      hashStream_of_fresh rfl, ← hcovered]
    exact congrArg₂ (· ++ ·) hsender (congrArg (· ++ _) hcommand)
  rw [ServiceConnection.accepts, validateCrc32, beq_iff_eq, crc32, hhashed]
  rfl

section Damaged

variable {checksum : Checksum} {frame bytes : List UInt8}

theorem Damaged.length_eq (h : Damaged frame bytes) (hframe : 22 ≤ frame.length) :
    bytes.length = frame.length := by
  cases h with
  | checksum hlen => exact hlen
  | covered hfront hburst =>
    have hbits := hburst.length_eq
    have htake := congrArg List.length hfront
    rw [length_bitsOf, length_bitsOf, List.length_drop, List.length_drop] at hbits
    rw [List.length_take, List.length_take] at htake
    omega

theorem Damaged.declared_eq (h : Damaged frame bytes) : declared bytes = declared frame := by
  have hfront : bytes.take 8 = frame.take 8 := by
    cases h with
    | checksum _ hfront => exact hfront
    | covered hfront =>
      have htake := congrArg (List.take 8) hfront
      rwa [List.take_take, List.take_take] at htake
  rw [declared, declared, hfront]

/-- A frame is its length prefix, its checksum and what that covers. -/
theorem eq_of_fields (hfront : bytes.take 8 = frame.take 8)
    (hfield : (bytes.drop 8).take 4 = (frame.drop 8).take 4)
    (hcovered : bytes.drop 12 = frame.drop 12) : bytes = frame := by
  have hsplit : ∀ l : List UInt8, l = l.take 8 ++ ((l.drop 8).take 4 ++ l.drop 12) := by
    intro l
    have h12 : l.drop 12 = (l.drop 8).drop 4 := by rw [List.drop_drop]
    rw [h12, List.take_append_drop, List.take_append_drop]
  rw [hsplit bytes, hfront, hfield, hcovered, ← hsplit frame]

/-- If a frame passes the test of its checksum, then a damaged one does not. -/
theorem Damaged.not_accepts (h : Damaged frame bytes) (hbursts : FindsBursts checksum)
    (hframe : 22 ≤ frame.length) (hacc : ServiceConnection.accepts checksum frame = true) :
    ServiceConnection.accepts checksum bytes = false := by
  have hlen := h.length_eq hframe
  rw [accepts_iff hframe] at hacc
  rw [Bool.eq_false_iff, Ne, accepts_iff (hlen ▸ hframe)]
  intro hacc'
  cases h with
  | checksum _ hfront hcovered hne =>
    -- both frames carry the checksum of what they cover
    have hfield : ∀ l : List UInt8, 22 ≤ l.length →
        toBytes (ofBytes ((l.drop 8).take 4) : UInt32) = (l.drop 8).take 4 := by
      intro l hl
      apply toBytes_ofBytes
      rw [List.length_take, List.length_drop]
      change _ = 4
      omega
    have hsame : (bytes.drop 8).take 4 = (frame.drop 8).take 4 := by
      rw [← hfield bytes (hlen ▸ hframe), ← hfield frame hframe, hacc, hacc', hcovered]
    exact hne (eq_of_fields hfront hsame hcovered)
  | covered hfront hburst =>
    have hcrc : (bytes.drop 8).take 4 = (frame.drop 8).take 4 := by
      have hdrop := congrArg (List.drop 8) hfront
      rwa [List.drop_take, List.drop_take] at hdrop
    rw [hcrc, hacc] at hacc'
    exact hbursts hburst hacc'

end Damaged

/-! ## Both ends -/

/-- **Damaged frames.** With a checksum that finds bursts, wherever the chunk that completes a
damaged frame begins, the receiving connection refuses it, calls nobody and keeps nothing, and a
locator that gets it as one chunk refuses it, posts nothing and keeps its pending requests. -/
theorem damaged_frame_refused {ι κ : Type} (beyond : Beyond) {checksum : Checksum}
    (hbursts : FindsBursts checksum) (user : Call → Bool) (service : ServiceType)
    (l : ServiceLocator ι κ) {m : SentMessage} (hm : m.payload.Fresh) {bytes : List UInt8}
    (h : Damaged (m.frame checksum) bytes) :
    (∀ had data, had ++ data = bytes →
        ServiceConnection.onData beyond checksum user service data (.ofBytes had) =
          .ok (false, []) {}) ∧
      l.onData beyond checksum service bytes = .ok (false, []) l := by
  have hframe : 22 ≤ (m.frame checksum).length := by
    rw [m.length_frame]
    omega
  have hlen := h.length_eq hframe
  have hfull : declared bytes ≤ bytes.length := by
    rw [h.declared_eq, hlen]
    exact m.declared_frame_le checksum
  have hacc := h.not_accepts hbursts hframe (ServiceConnection.accepts_frame checksum hm)
  refine ⟨?_, ?_⟩
  · intro had data hb
    rw [ServiceConnection.onData_delivers beyond checksum user service hb (hlen ▸ hframe) hfull,
      hacc]
    rfl
  · have hcan := canDecode_eq beyond (s := .ofBytes bytes)
      (show 8 ≤ bytes.length by omega)
    rw [MemoryStream.unread_ofBytes, decide_eq_true hfull] at hcan
    rw [ServiceConnection.accepts] at hacc
    rw [ServiceLocator.onData, hcan, decode_eq beyond (s := .ofBytes bytes) (hlen ▸ hframe),
      MemoryStream.unread_ofBytes]
    simp only [hacc, Bool.not_false, if_true]

/-- An update from sender 7 with the payload `3 4`. -/
def sampleUpdate : SentMessage where
  sender := 7
  command := .update
  payload := .ofBytes [3, 4] (by decide)

/-- The frame of the update, with the two payload bytes exchanged. -/
def sampleDamage : List UInt8 := (sampleUpdate.frame crc32Ieee).take 22 ++ [4, 3]

theorem damaged_frame_refused_sample :
    Damaged (sampleUpdate.frame crc32Ieee) sampleDamage ∧
      ServiceConnection.onData (fun _ => none) crc32Ieee (fun _ => true) 1 sampleDamage {} =
        .ok (false, []) {} := by
  have hburst : Differ 32 (bitsOf ((sampleUpdate.frame crc32Ieee).drop 12))
      (bitsOf (sampleDamage.drop 12)) := by
    have h : Differ 32
        (bitsOf (7 :: List.replicate 9 0) ++ (bits 3 ++ bits 4) ++ [])
        (bitsOf (7 :: List.replicate 9 0) ++ (bits 4 ++ bits 3) ++ []) :=
      .within _ _ rfl (by decide) (by decide)
    have hframe : bitsOf ((sampleUpdate.frame crc32Ieee).drop 12) =
        bitsOf (7 :: List.replicate 9 0) ++ (bits 3 ++ bits 4) ++ [] := by decide +kernel
    have hdamage : bitsOf (sampleDamage.drop 12) =
        bitsOf (7 :: List.replicate 9 0) ++ (bits 4 ++ bits 3) ++ [] := by decide +kernel
    rwa [hframe, hdamage]
  have h : Damaged (sampleUpdate.frame crc32Ieee) sampleDamage :=
    .covered (by decide +kernel) hburst
  exact ⟨h, (damaged_frame_refused (fun _ => none) crc32Ieee_findsBursts (fun _ => true) 1
    ({} : ServiceLocator Unit Unit) (Payload.fresh_ofBytes [3, 4] (by decide)) h).1 [] _ rfl⟩

-- the bits 68 to 97 of the frame are damaged, some of the checksum and some of the sender
example : ServiceConnection.accepts crc32Ieee
    [16, 0, 0, 0, 0, 0, 0, 0, 202, 106, 147, 84, 4, 0, 0, 0, 0, 0, 0, 0, 0, 0, 3, 4] = true := by
  decide +kernel

/-! ## The length prefix -/

section Prefix

variable {m : SentMessage} {bytes : List UInt8}

theorem parse_of_drop {frame : List UInt8} (h : bytes.drop 8 = frame.drop 8) :
    parse bytes = parse frame := by
  have hdrop : ∀ n, 8 ≤ n → bytes.drop n = frame.drop n := by
    intro n hn
    have hmore := congrArg (List.drop (n - 8)) h
    rwa [List.drop_drop, List.drop_drop, Nat.add_sub_cancel' hn] at hmore
  simp only [parse, hdrop 8 (Nat.le_refl 8), hdrop 12 (by omega), hdrop 20 (by omega),
    hdrop 22 (by omega)]

section Unnoticed

variable {checksum : Checksum} (beyond : Beyond) (hm : m.payload.Fresh)
  (hlen : bytes.length = (m.frame checksum).length)
  (h : bytes.drop 8 = (m.frame checksum).drop 8)

include hm h in
theorem accepts_of_drop : ServiceConnection.accepts checksum bytes = true := by
  have hsent := ServiceConnection.accepts_frame checksum hm
  rwa [ServiceConnection.accepts, ← parse_of_drop h] at hsent

include hlen in
theorem frame_le_length : 22 ≤ bytes.length := by
  rw [hlen, m.length_frame]
  omega

include hm hlen h in
theorem connection_unnoticed (user : Call → Bool) (service : ServiceType) {had data : List UInt8}
    (hb : had ++ data = bytes) :
    ServiceConnection.onData beyond checksum user service data (.ofBytes had) =
      if declared bytes ≤ bytes.length then
        .ok (user (ServiceConnection.callFor service m), [ServiceConnection.callFor service m]) {}
      else .ok (true, []) (.ofBytes bytes) := by
  have hframe := frame_le_length hlen
  have hcall : ServiceConnection.callOf service bytes = ServiceConnection.callFor service m := by
    rw [← ServiceConnection.callOf_frame checksum hm, ServiceConnection.callOf, parse_of_drop h]
    rfl
  by_cases hfull : declared bytes ≤ bytes.length
  · rw [ServiceConnection.onData_delivers beyond checksum user service hb hframe hfull,
      accepts_of_drop hm h, hcall, if_pos hfull]
    rfl
  · rw [ServiceConnection.onData_waits beyond checksum user service hb (by omega) (by omega),
      if_neg hfull]

include hm hlen h in
theorem locator_unnoticed {ι κ : Type} (service : ServiceType) (l : ServiceLocator ι κ) :
    l.onData beyond checksum service bytes =
      if declared bytes ≤ bytes.length then
        l.onData beyond checksum service (m.frame checksum)
      else .ok (true, []) l := by
  have hframe := frame_le_length hlen
  by_cases hfull : declared bytes ≤ bytes.length
  · rw [if_pos hfull,
      ServiceLocator.onData_of_isAnswer beyond service ⟨hframe, hfull, accepts_of_drop hm h⟩,
      ServiceLocator.onData_of_isAnswer beyond service (ServiceLocator.isAnswer_frame hm)]
    simp only [ServiceLocator.postOf]
    rw [parse_of_drop h]
  · have hcan := canDecode_eq beyond (s := .ofBytes bytes) (show 8 ≤ bytes.length by omega)
    rw [MemoryStream.unread_ofBytes, decide_eq_false hfull] at hcan
    rw [ServiceLocator.onData, hcan, if_neg hfull]

end Unnoticed

/-- **The length prefix** is covered by no checksum, whatever the checksum is. A frame that arrives
with another one is handed on as it was sent if the number that it declares is no more than that of
all bytes that have arrived, the eight of the prefix included; else the connection waits for more,
and the locator accepts it and forgets it. -/
theorem damaged_prefix_unnoticed {ι κ : Type} {checksum : Checksum} (beyond : Beyond)
    (user : Call → Bool) (service : ServiceType) (l : ServiceLocator ι κ) (hm : m.payload.Fresh)
    (hlen : bytes.length = (m.frame checksum).length)
    (h : bytes.drop 8 = (m.frame checksum).drop 8) :
    (∀ had data, had ++ data = bytes →
        ServiceConnection.onData beyond checksum user service data (.ofBytes had) =
          if declared bytes ≤ bytes.length then
            .ok (user (ServiceConnection.callFor service m), [ServiceConnection.callFor service m])
              {}
          else .ok (true, []) (.ofBytes bytes)) ∧
      l.onData beyond checksum service bytes =
        if declared bytes ≤ bytes.length then
          l.onData beyond checksum service (m.frame checksum)
        else .ok (true, []) l :=
  ⟨fun _ _ hb => connection_unnoticed beyond hm hlen h user service hb,
    locator_unnoticed beyond hm hlen h service l⟩

/-- The frame of the update, declared to be three bytes long. -/
def shortPrefix : List UInt8 := toBytes (3 : UInt64) ++ (sampleUpdate.frame crc32Ieee).drop 8

theorem damaged_prefix_unnoticed_sample :
    ServiceConnection.onData (fun _ => none) crc32Ieee (fun _ => true) 1 shortPrefix {} =
      .ok (true, [ServiceConnection.callFor 1 sampleUpdate]) {} := by
  have hlen : shortPrefix.length = (sampleUpdate.frame crc32Ieee).length := by decide +kernel
  have hdrop : shortPrefix.drop 8 = (sampleUpdate.frame crc32Ieee).drop 8 := by decide +kernel
  have hfresh : sampleUpdate.payload.Fresh := Payload.fresh_ofBytes [3, 4] (by decide)
  have h := (damaged_prefix_unnoticed (fun _ => none) (fun _ => true) 1
    ({} : ServiceLocator Unit Unit) hfresh hlen hdrop).1 [] _ rfl
  have hfull : declared shortPrefix ≤ shortPrefix.length := by decide +kernel
  rwa [if_pos hfull] at h

end Prefix

end KeycapRoot.Network
