import KeycapRoot.Network.ServiceConnection

/-!
# Reassembling messages from chunks

A connection reads whatever the transport hands over, so the frames of the messages arrive cut at
arbitrary places, and the chunks are passed to `on_data` one by one. The length test of `on_data` is
eight bytes short, and `decode` takes all that has arrived; so the messages come out as they went in
exactly when the cuts are `aligned` with the frames (`reassembles_iff_aligned`): a chunk ends at the
end of each frame, and none ends among the first seven or within the last eight bytes of a frame.
-/

namespace KeycapRoot.Network

open KeycapRoot.Utility RegisteredMessage

namespace ServiceConnection

section Feed

variable (beyond : Beyond) (checksum : Checksum) (user : Call → Bool) (service : ServiceType)

/-- Every chunk is accepted, the calls are the ones given, and nothing stays unread. -/
def FeedsTo (s : MemoryStream) (chunks : List (List UInt8)) (calls : List Call) : Prop :=
  ∃ t, Outcome.Accepts (onData beyond checksum user service) s chunks calls t ∧ t.unread = []

theorem feedsTo_nil {s : MemoryStream} {calls : List Call} :
    FeedsTo beyond checksum user service s [] calls ↔ calls = [] ∧ s.unread = [] := by
  constructor
  · rintro ⟨t, h, ht⟩
    obtain ⟨rfl, rfl⟩ := Outcome.accepts_nil.1 h
    exact ⟨rfl, ht⟩
  · rintro ⟨rfl, hs⟩
    exact ⟨s, Outcome.accepts_nil.2 ⟨rfl, rfl⟩, hs⟩

theorem feedsTo_cons {s : MemoryStream} {chunk : List UInt8} {chunks : List (List UInt8)}
    {calls : List Call} :
    FeedsTo beyond checksum user service s (chunk :: chunks) calls ↔
      ∃ first rest s₁, onData beyond checksum user service chunk s = .ok (true, first) s₁ ∧
        FeedsTo beyond checksum user service s₁ chunks rest ∧ calls = first ++ rest := by
  constructor
  · rintro ⟨t, h, ht⟩
    obtain ⟨first, rest, s₁, hfirst, hrest, hcalls⟩ := Outcome.accepts_cons.1 h
    exact ⟨first, rest, s₁, hfirst, ⟨t, hrest, ht⟩, hcalls⟩
  · rintro ⟨first, rest, s₁, hfirst, ⟨t, hrest, ht⟩, hcalls⟩
    exact ⟨t, Outcome.accepts_cons.2 ⟨first, rest, s₁, hfirst, hrest, hcalls⟩, ht⟩

end Feed

/-- The cuts suit the frames. `had` bytes of the first frame have arrived, the frames carry payloads
of the given sizes, and the chunks to come have the given sizes. -/
def aligned : Nat → List Nat → List Nat → Bool
  | had, payload :: payloads, chunk :: chunks =>
    if had + chunk = 22 + payload then aligned 0 payloads chunks
    else
      decide (8 ≤ had + chunk) && decide (had + chunk < 14 + payload) &&
        aligned (had + chunk) (payload :: payloads) chunks
  | _, [], [] => true
  | _, _, _ => false

/-! ## The bytes that have arrived -/

section Frames

variable (checksum : Checksum)

/-- The frames of the messages, one after the other. -/
def wire (msgs : List SentMessage) : List UInt8 := msgs.flatMap (SentMessage.frame checksum)

theorem wire_cons (m : SentMessage) (msgs : List SentMessage) :
    wire checksum (m :: msgs) = m.frame checksum ++ wire checksum msgs := rfl

/-- From the eighth byte of a frame on, the bytes that have arrived declare its length. -/
theorem declared_take_wire (m : SentMessage) (msgs : List SentMessage) {n : Nat} (h : 8 ≤ n) :
    declared ((wire checksum (m :: msgs)).take n) = 14 + m.payload.bytes.length := by
  rw [declared_take h, wire_cons, m.declared_frame_append]

/-- Up to the end of the first frame, the bytes that have arrived are bytes of it. -/
theorem take_wire {m : SentMessage} {msgs : List SentMessage} {n : Nat}
    (h : n ≤ (m.frame checksum).length) :
    (wire checksum (m :: msgs)).take n = (m.frame checksum).take n := by
  rw [wire_cons, List.take_append_of_le_length h]

end Frames

/-! ## Cuts and frames -/

section Aligned

variable (checksum : Checksum) (user : Call → Bool) (service : ServiceType)

/-- The sizes of the payloads. -/
def payloadSizes (msgs : List SentMessage) : List Nat := msgs.map fun m => m.payload.bytes.length

/-- `had` bytes of the frames have arrived, none but of the first frame, and that not whole. -/
def Inbound (msgs : List SentMessage) (had : Nat) : Prop :=
  match msgs with
  | [] => had = 0
  | m :: _ => had < (m.frame checksum).length

theorem inbound_zero (msgs : List SentMessage) : Inbound checksum msgs 0 := by
  cases msgs with
  | nil => rfl
  | cons m msgs =>
    rw [Inbound, m.length_frame]
    omega

/-- The first of the chunks that the rest of a stream is cut into arrives. -/
theorem arrives {stream chunk : List UInt8} {chunks : List (List UInt8)} {had : Nat}
    (hcut : (chunk :: chunks).flatten = stream.drop had) :
    stream.take had ++ chunk = stream.take (had + chunk.length) ∧
      chunks.flatten = stream.drop (had + chunk.length) := by
  constructor
  · rw [List.take_add, ← hcut, List.flatten_cons, List.take_left]
  · rw [← List.drop_drop, ← hcut, List.flatten_cons, List.drop_left]

/-- Aligned chunks are reassembled: each of them waits, or completes a frame. -/
theorem feedsTo_of_aligned (beyond : Beyond) (huser : ∀ call, user call = true)
    {chunks : List (List UInt8)} (hne : ∀ chunk ∈ chunks, chunk ≠ []) :
    ∀ {msgs : List SentMessage} {had : Nat}, (∀ m ∈ msgs, m.payload.Fresh) →
      Inbound checksum msgs had →
      chunks.flatten = (wire checksum msgs).drop had →
      aligned had (payloadSizes msgs) (chunks.map List.length) = true →
      FeedsTo beyond checksum user service (.ofBytes ((wire checksum msgs).take had)) chunks
        (msgs.map (callFor service)) := by
  induction chunks with
  | nil =>
    intro msgs had _ hin _ hal
    cases msgs with
    | nil => exact (feedsTo_nil ..).2 ⟨rfl, List.take_nil⟩
    | cons m msgs => simp [aligned, payloadSizes] at hal
  | cons chunk chunks ih =>
    intro msgs had hfresh hin hcut hal
    cases msgs with
    | nil => simp [aligned, payloadSizes] at hal
    | cons m msgs =>
      have hm : m.payload.Fresh := hfresh m List.mem_cons_self
      have hlenF := m.length_frame_of_fresh checksum hm
      -- what has arrived together with the chunk
      obtain ⟨hbytes, hrest⟩ := arrives hcut
      have ih := @ih fun c hc => hne c (List.mem_cons_of_mem _ hc)
      rw [List.map_cons, payloadSizes, List.map_cons, aligned] at hal
      rw [feedsTo_cons]
      by_cases hend : had + chunk.length = 22 + m.payload.bytes.length
      · -- the chunk completes the frame
        rw [if_pos hend] at hal
        rw [hend, ← hlenF] at hbytes hrest
        rw [take_wire checksum (Nat.le_refl _), List.take_length] at hbytes
        rw [wire_cons, List.drop_left] at hrest
        have hon := onData_delivers beyond checksum user service hbytes (by omega)
          (by rw [← List.append_nil (m.frame checksum), m.declared_frame_append,
                List.append_nil, hlenF]
              omega)
        rw [if_pos (accepts_frame checksum hm), callOf_frame checksum hm, huser] at hon
        refine ⟨_, _, _, hon, ih (fun x hx => hfresh x (List.mem_cons_of_mem _ hx))
          (inbound_zero checksum msgs) hrest hal, rfl⟩
      · -- the chunk leaves the frame unfinished
        rw [if_neg hend, Bool.and_eq_true, Bool.and_eq_true, decide_eq_true_eq,
          decide_eq_true_eq] at hal
        obtain ⟨⟨h8, h14⟩, hal⟩ := hal
        have hlen : ((wire checksum (m :: msgs)).take (had + chunk.length)).length =
            had + chunk.length := by
          rw [take_wire checksum (by omega), List.length_take]
          omega
        have hon := onData_waits beyond checksum user service hbytes (by omega)
          (by rw [declared_take_wire checksum m msgs h8]; omega)
        exact ⟨_, _, _, hon, ih hfresh (show _ < _ by omega) hrest hal, rfl⟩

/-- Chunks that are reassembled wherever reads behind the buffer trap are aligned: any other cut
shows up at the chunk it follows. -/
theorem aligned_of_feedsTo {chunks : List (List UInt8)} (hne : ∀ chunk ∈ chunks, chunk ≠ []) :
    ∀ {msgs : List SentMessage} {had : Nat}, (∀ m ∈ msgs, m.payload.Fresh) →
      Inbound checksum msgs had →
      chunks.flatten = (wire checksum msgs).drop had →
      FeedsTo (fun _ => none) checksum user service
        (.ofBytes ((wire checksum msgs).take had)) chunks (msgs.map (callFor service)) →
      aligned had (payloadSizes msgs) (chunks.map List.length) = true := by
  induction chunks with
  | nil =>
    intro msgs had _ hin hcut _
    cases msgs with
    | nil => rfl
    | cons m msgs =>
      have hlen := congrArg List.length hcut
      have hhad : had < (m.frame checksum).length := hin
      rw [wire_cons, List.length_drop, List.length_append, List.flatten_nil,
        List.length_nil] at hlen
      omega
  | cons chunk chunks ih =>
    intro msgs had hfresh hin hcut hfeed
    have hchunk : 0 < chunk.length := List.length_pos_iff.2 (hne chunk List.mem_cons_self)
    have hroom : had + chunk.length ≤ (wire checksum msgs).length := by
      have hlen := congrArg List.length hcut
      rw [List.flatten_cons, List.length_append, List.length_drop] at hlen
      omega
    cases msgs with
    | nil =>
      have hnil : (wire checksum []).length = 0 := rfl
      omega
    | cons m msgs =>
      have hm : m.payload.Fresh := hfresh m List.mem_cons_self
      have hlenF := m.length_frame_of_fresh checksum hm
      obtain ⟨hbytes, hrest⟩ := arrives hcut
      have hlen : ((wire checksum (m :: msgs)).take (had + chunk.length)).length =
          had + chunk.length := by
        rw [List.length_take]
        omega
      have ih := @ih fun c hc => hne c (List.mem_cons_of_mem _ hc)
      obtain ⟨first, rest, s₁, hon, hfeed, hcalls⟩ := (feedsTo_cons ..).1 hfeed
      rw [List.map_cons, payloadSizes, List.map_cons, aligned]
      by_cases h8 : 8 ≤ had + chunk.length
      · have hdecl := declared_take_wire checksum m msgs h8
        by_cases h14 : had + chunk.length < 14 + m.payload.bytes.length
        · -- the chunk leaves the frame unfinished
          have hwait := onData_waits (fun _ => none) checksum user service hbytes (by omega)
            (by omega)
          rw [hwait] at hon
          cases hon
          rw [if_neg (by omega), decide_eq_true h8, decide_eq_true h14]
          exact ih hfresh (show _ < _ by omega) hrest (hcalls ▸ hfeed)
        · by_cases h22 : had + chunk.length < 22
          · obtain ⟨e, s, hthrow⟩ := onData_throws (fun _ => none) checksum user service hbytes
              (by omega) (by omega) (by omega)
            rw [hthrow] at hon
            cases hon
          · -- one call is made, with all that has arrived behind the header
            rw [onData_delivers _ checksum user service hbytes (by omega) (by omega)] at hon
            split at hon
            · simp only [Outcome.ok.injEq, Prod.mk.injEq] at hon
              obtain ⟨⟨-, rfl⟩, rfl⟩ := hon
              have hcall := (List.cons.inj hcalls).1
              have hsize := congrArg (fun call : Call => call.payload.buffer.length) hcall
              have hend : had + chunk.length = 22 + m.payload.bytes.length := by
                change m.payload.bytes.length = (List.drop 22 _).length at hsize
                rw [List.length_drop, hlen] at hsize
                omega
              rw [hend, ← hlenF, wire_cons, List.drop_left] at hrest
              rw [if_pos hend]
              exact ih (fun x hx => hfresh x (List.mem_cons_of_mem _ hx))
                (inbound_zero checksum msgs) hrest ((List.cons.inj hcalls).2 ▸ hfeed)
            · cases hon
      · obtain ⟨s, htrap⟩ := onData_undefined checksum user service hbytes (by omega) (by omega)
        rw [htrap] at hon
        cases hon

end Aligned

/-! ## Reassembly -/

/-- What a receiver owes the senders of the messages, whatever lies behind its buffer: it accepts
every chunk, calls the user's `on_data` once for each message, in order, and keeps nothing. -/
def Reassembles (checksum : Checksum) (service : ServiceType) (msgs : List SentMessage)
    (chunks : List (List UInt8)) : Prop :=
  ∀ beyond, FeedsTo beyond checksum (fun _ => true) service {} chunks (msgs.map (callFor service))

/-- **Reassembly.** The messages come out of the chunks as they went in if and only if the cuts are
aligned with the frames. -/
theorem reassembles_iff_aligned (checksum : Checksum) (service : ServiceType)
    {msgs : List SentMessage} {chunks : List (List UInt8)}
    (hfresh : ∀ m ∈ msgs, m.payload.Fresh) (hne : ∀ chunk ∈ chunks, chunk ≠ [])
    (hcut : chunks.flatten = msgs.flatMap (SentMessage.frame checksum)) :
    Reassembles checksum service msgs chunks ↔
      aligned 0 (msgs.map fun m => m.payload.bytes.length) (chunks.map List.length) = true := by
  constructor
  · intro h
    exact aligned_of_feedsTo checksum _ service hne hfresh (inbound_zero checksum msgs) hcut
      (h fun _ => none)
  · intro h beyond
    exact feedsTo_of_aligned checksum _ service beyond (fun _ => rfl) hne hfresh
      (inbound_zero checksum msgs) hcut h

/-- A request from sender 7 with the payload `1 2`. -/
def sampleRequest : SentMessage where
  sender := 7
  command := .request
  payload := .ofBytes [1, 2] (by decide)

theorem reassembles_iff_aligned_sample :
    Reassembles crc32Ieee 1 [sampleRequest]
      [(sampleRequest.frame crc32Ieee).take 9, (sampleRequest.frame crc32Ieee).drop 9] :=
  (reassembles_iff_aligned crc32Ieee 1 (by simp [sampleRequest]) (by decide +kernel)
    (by simp)).2 (by decide +kernel)

/-- Two frames in one chunk: the second one becomes a part of the first one's payload. -/
theorem two_frames_not_reassembled :
    let frame := sampleRequest.frame crc32Ieee
    (∀ m ∈ [sampleRequest, sampleRequest], m.payload.Fresh) ∧
      [frame ++ frame].flatten = [sampleRequest, sampleRequest].flatMap (·.frame crc32Ieee) ∧
      ¬ Reassembles crc32Ieee 1 [sampleRequest, sampleRequest] [frame ++ frame] := by
  have hfresh : ∀ m ∈ [sampleRequest, sampleRequest], m.payload.Fresh := by simp [sampleRequest]
  refine ⟨hfresh, by simp, ?_⟩
  intro h
  have hal := aligned_of_feedsTo crc32Ieee _ 1 (by decide +kernel) hfresh
    (inbound_zero crc32Ieee _) (by simp [wire]) (h fun _ => none)
  exact absurd hal (by decide +kernel)

end ServiceConnection

end KeycapRoot.Network
