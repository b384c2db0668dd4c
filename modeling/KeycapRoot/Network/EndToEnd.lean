import KeycapRoot.Network.Connection
import KeycapRoot.Network.Reassembly

/-!
# From one end of a link to the other

Two connections with the transport between them: the transport takes the packet that `do_write` is
writing piece by piece, and a read of the other side gets some of the bytes it has taken, in order.
The receiving side is a service connection, the only handler of its router, so a read is followed by
`on_data`. Whatever the order of the steps on both sides, what `on_data` has been given is a
beginning of what was passed to `send`, and if the cuts suit the frames then the calls that were
made are the messages that were sent (`delivered_end_to_end`).
-/

namespace KeycapRoot.Network

open KeycapRoot.Utility RegisteredMessage

/-- Both ends of a link. `transmitted` is what the transport has taken so far, `arrived` how much of
it the receiver has read, and `chunks` what `on_data` has been given. -/
structure Session where
  sender : Connection := .handleNewConnection 0
  transmitted : List UInt8 := []
  arrived : Nat := 0
  receiver : Connection := .handleNewConnection 0
  inputStream : MemoryStream := {}
  chunks : List (List UInt8) := []
  calls : List Call := []

namespace Session

/-- A step of either connection, of the transport, of a read that completes with `n` bytes, or of
`do_read` with the bytes it has read. -/
inductive Event
  | sender (e : Connection.Event)
  | transmit (n : Nat)
  | receiver (e : Connection.Event)
  | arrives (n : Nat)
  | onData

/-- A write succeeds when the transport has taken the whole packet. -/
def mayHappen (s : Session) : Connection.Event → Bool
  | .writeCompletes true =>
    match s.sender.writer with
    | .writing packet => s.transmitted == s.sender.written.flatten ++ packet
    | _ => true
  | _ => true

/-- Reads that succeed, and what `do_read` does with their bytes, are steps of their own. -/
def concernsData (c : Connection) : Connection.Event → Bool
  | .readCompletes (some _) => true
  | .resumeReader _ =>
    match c.reader with
    | .completed (some _) => true
    | _ => false
  | _ => false

section Step

variable (beyond : Beyond) (checksum : Checksum) (user : Call → Bool) (service : ServiceType)

def step (s : Session) : Event → Option Session
  | .sender e =>
    if s.mayHappen e then (s.sender.step e).map fun sender => { s with sender } else none
  | .transmit n =>
    match s.sender.writer with
    | .writing packet =>
      let left := (s.sender.written.flatten ++ packet).drop s.transmitted.length
      some { s with transmitted := s.transmitted ++ left.take n }
    | _ => none
  | .receiver e =>
    if concernsData s.receiver e then none
    else (s.receiver.step e).map fun receiver => { s with receiver }
  | .arrives n =>
    let data := (s.transmitted.drop s.arrived).take n
    if data = [] then none
    else (s.receiver.step (.readCompletes (some data))).map fun receiver =>
      { s with receiver, arrived := s.arrived + data.length }
  | .onData =>
    match s.receiver.reader with
    | .completed (some data) =>
      match ServiceConnection.onData beyond checksum user service data s.inputStream with
      | .ok (ret, calls) inputStream =>
        let verdict := if ret then Verdict.accepts else Verdict.refuses
        some { s with
          receiver := s.receiver.resumeReader (fun _ => verdict) (some data)
          inputStream
          chunks := s.chunks ++ [data]
          calls := s.calls ++ calls }
      -- what the stream throws is a `std::exception`
      | .error (.exception _) inputStream =>
        some { s with
          receiver := s.receiver.resumeReader (fun _ => .throws true) (some data)
          inputStream
          chunks := s.chunks ++ [data] }
      | .error .undefined _ => none
    | _ => none

end Step

/-- The packets that are passed to `send` of the sender. -/
def packets (es : List Event) : List (List UInt8) :=
  es.filterMap fun
    | .sender (.send data) => some data
    | _ => none

/-! ## The sender and the transport -/

/-- How much of the packet at the front of the queue the transport may have taken. -/
def MayHaveTaken (part : List UInt8) (queue : List (List UInt8)) : Writer → Prop
  | .writing packet => part <+: packet
  | .completed packet true => part = packet
  | .completed packet false => part <+: packet
  | .finished => part <+: queue.flatten
  | _ => part = []

/-- The transport has taken the packets that have been written, and some of the next one. -/
def HandedOver (c : Connection) (transmitted : List UInt8) : Prop :=
  ∃ part, transmitted = c.written.flatten ++ part ∧ MayHaveTaken part c.sendPacketQueue c.writer

section Sender

variable {sent : List (List UInt8)} {c c' : Connection} {transmitted : List UInt8}

/-- Of the packet at the front of the queue nothing has been taken while none is being written. -/
theorem handedOver_writeLoop (h : transmitted = c.written.flatten) :
    HandedOver c.writeLoop transmitted := by
  unfold Connection.writeLoop
  split
  · split
    · exact ⟨[], by rw [List.append_nil, h], rfl⟩
    · exact ⟨[], by rw [List.append_nil, h], List.nil_prefix⟩
  · exact ⟨[], by rw [List.append_nil, h], List.nil_prefix⟩

/-- What is written or has been is at the front of the queue. -/
theorem prefix_flatten {packet part : List UInt8} {queue : List (List UInt8)}
    (hhead : queue.head? = some packet) (hpart : part <+: packet) : part <+: queue.flatten := by
  cases queue with
  | nil => cases hhead
  | cons front rest =>
    cases hhead
    exact hpart.trans (List.prefix_append _ _)

theorem HandedOver.prefix (h : HandedOver c transmitted) (horder : c.InOrder sent) :
    transmitted <+: sent.flatten := by
  obtain ⟨part, rfl, htaken⟩ := h
  rw [← horder.order, List.flatten_append, List.prefix_append_right_inj]
  cases hw : c.writer with
  | writing packet =>
    rw [hw] at htaken
    exact prefix_flatten (horder.writing packet hw) htaken
  | completed packet success =>
    rw [hw] at htaken
    cases success with
    | true => exact prefix_flatten (horder.completed packet true hw) (htaken ▸ List.prefix_rfl)
    | false => exact prefix_flatten (horder.completed packet false hw) htaken
  | finished =>
    rw [hw] at htaken
    exact htaken
  | notStarted =>
    rw [hw] at htaken
    exact htaken ▸ List.nil_prefix
  | waiting cancelled =>
    rw [hw] at htaken
    exact htaken ▸ List.nil_prefix

/-- While the writer sleeps, everything that was sent has been taken. -/
theorem HandedOver.all (h : HandedOver c transmitted) (horder : c.InOrder sent)
    (hasleep : c.writer = .waiting false) : transmitted = sent.flatten := by
  obtain ⟨part, rfl, htaken⟩ := h
  rw [hasleep] at htaken
  cases htaken
  rw [← horder.order, horder.asleep hasleep, List.append_nil, List.append_nil]

/-- The reader may abort a write; it does nothing else to the packets. -/
theorem HandedOver.of_abort (h : HandedOver c transmitted) (hwritten : c'.written = c.written)
    (hqueue : c'.sendPacketQueue = c.sendPacketQueue)
    (hwriter : c'.writer = c.writer ∨ c'.writer = c.writer.abort) : HandedOver c' transmitted := by
  obtain ⟨part, htransmitted, htaken⟩ := h
  refine ⟨part, by rw [hwritten, htransmitted], ?_⟩
  rw [hqueue]
  rcases hwriter with hsame | habort
  · rwa [hsame]
  · rw [habort]
    cases hw : c.writer <;> rw [hw] at htaken <;> exact htaken

theorem HandedOver.send (h : HandedOver c transmitted) (data : List UInt8) :
    HandedOver (c.send data) transmitted := by
  obtain ⟨part, htransmitted, htaken⟩ := h
  refine ⟨part, htransmitted, ?_⟩
  cases hw : c.writer with
  | finished =>
    rw [hw] at htaken
    simp only [Connection.send, hw, Writer.cancelOne, MayHaveTaken, List.flatten_append]
    exact List.IsPrefix.trans htaken (List.prefix_append _ _)
  | completed packet success =>
    rw [hw] at htaken
    simp only [Connection.send, hw, Writer.cancelOne]
    cases success <;> exact htaken
  | _ =>
    rw [hw] at htaken
    simp only [Connection.send, hw, Writer.cancelOne]
    exact htaken

theorem HandedOver.resumeWriter (h : HandedOver c transmitted) (horder : c.InOrder sent)
    {packet : List UInt8} {success : Bool} (hw : c.writer = .completed packet success) :
    HandedOver (c.resumeWriter packet success) transmitted := by
  obtain ⟨part, htransmitted, htaken⟩ := h
  rw [hw] at htaken
  cases success with
  | true =>
    cases htaken
    apply handedOver_writeLoop
    rw [htransmitted, List.flatten_append, List.flatten_singleton]
  | false => exact ⟨part, htransmitted, prefix_flatten (horder.completed packet false hw) htaken⟩

theorem HandedOver.resumeReader (h : HandedOver c transmitted) (onData : Nat → Verdict)
    (result : Option (List UInt8)) : HandedOver (c.resumeReader onData result) transmitted := by
  cases result with
  | none => exact h.of_abort rfl rfl (Or.inr rfl)
  | some data =>
    rcases c.resumeReader_cases onData data with ⟨-, hgoes⟩ | ⟨-, hgoes⟩ | ⟨-, hgoes⟩
    · rw [hgoes, Connection.readLoop]
      split <;> exact h.of_abort rfl rfl (Or.inl rfl)
    · rw [hgoes]
      exact h.of_abort rfl rfl (Or.inr rfl)
    · rw [hgoes]
      exact h.of_abort rfl rfl (Or.inl rfl)

/-- No step of the sender changes what has been taken; a write that succeeds was taken whole. -/
theorem HandedOver.step {s : Session} {e : Connection.Event}
    (h : HandedOver s.sender s.transmitted) (horder : s.sender.InOrder sent)
    (hmay : s.mayHappen e = true) (hstep : s.sender.step e = some c') :
    HandedOver c' s.transmitted := by
  obtain ⟨part, htransmitted, htaken⟩ := h
  cases Connection.steps_of_step hstep with
  | send data => exact HandedOver.send ⟨part, htransmitted, htaken⟩ data
  | startReader hreader =>
    unfold Connection.readLoop
    split <;> exact ⟨part, htransmitted, htaken⟩
  | readCompletes hreader hroom => exact ⟨part, htransmitted, htaken⟩
  | resumeReader onData hreader =>
    exact HandedOver.resumeReader ⟨part, htransmitted, htaken⟩ onData _
  | startWriter hwriter =>
    rw [hwriter] at htaken
    cases htaken
    exact handedOver_writeLoop (htransmitted.trans (List.append_nil _))
  | @writeCompletes packet success hwriter =>
    rw [hwriter] at htaken
    cases success with
    | true =>
      simp only [mayHappen, hwriter, beq_iff_eq] at hmay
      exact ⟨packet, hmay, rfl⟩
    | false => exact ⟨part, htransmitted, htaken⟩
  | wakeWriter hwriter =>
    rw [hwriter] at htaken
    cases htaken
    exact handedOver_writeLoop (htransmitted.trans (List.append_nil _))
  | resumeWriter hwriter =>
    exact HandedOver.resumeWriter ⟨part, htransmitted, htaken⟩ horder hwriter

/-- The transport takes more of the packet that is being written. -/
theorem HandedOver.transmit {packet : List UInt8} (h : HandedOver c transmitted)
    (hwriter : c.writer = .writing packet) (n : Nat) :
    HandedOver c
      (transmitted ++ (((c.written.flatten ++ packet).drop transmitted.length).take n)) := by
  obtain ⟨part, rfl, htaken⟩ := h
  rw [hwriter] at htaken
  obtain ⟨rest, rfl⟩ := htaken
  refine ⟨part ++ rest.take n, ?_, ?_⟩
  · rw [← List.append_assoc, List.drop_left, List.append_assoc]
  · rw [hwriter]
    exact (List.prefix_append_right_inj part).2 (List.take_prefix n rest)

end Sender

/-! ## The receiver -/

section Receiver

variable {c c' : Connection} {e : Connection.Event}

/-- The bytes that have been read and not yet been passed to `on_data`. -/
def pending (c : Connection) : List UInt8 :=
  match c.reader with
  | .completed (some data) => data
  | _ => []

theorem writeLoop_reader (c : Connection) : c.writeLoop.reader = c.reader := by
  unfold Connection.writeLoop
  split
  · split <;> rfl
  · rfl

theorem writeLoop_router (c : Connection) : c.writeLoop.router = c.router := by
  unfold Connection.writeLoop
  split
  · split <;> rfl
  · rfl

/-- Once its write has ended the writer leaves the reader alone, or closes the socket under it. -/
theorem resumeWriter_reader (c : Connection) (packet : List UInt8) (success : Bool) :
    (c.resumeWriter packet success).reader = c.reader ∨
      (c.resumeWriter packet success).reader = c.reader.abort := by
  cases success with
  | true => exact Or.inl (writeLoop_reader _)
  | false => exact Or.inr rfl

theorem pending_eq_nil (h : ∀ data, c.reader ≠ .completed (some data)) : pending c = [] := by
  rw [pending]
  split
  · rename_i data hreader
    exact absurd hreader (h data)
  · rfl

theorem pending_congr
    (h : ∀ data, c'.reader = .completed (some data) ↔ c.reader = .completed (some data)) :
    pending c' = pending c := by
  by_cases hsome : ∃ data, c.reader = .completed (some data)
  · obtain ⟨data, hreader⟩ := hsome
    rw [pending, pending, hreader, (h data).2 hreader]
  · have hno : ∀ data, c.reader ≠ .completed (some data) := fun data hr => hsome ⟨data, hr⟩
    rw [pending_eq_nil hno, pending_eq_nil fun data hr => hno data ((h data).1 hr)]

/-- Closing the socket leaves bytes that have been read as they are. -/
theorem completed_of_abort (h : c'.reader = c.reader ∨ c'.reader = c.reader.abort)
    (data : List UInt8) :
    c'.reader = .completed (some data) ↔ c.reader = .completed (some data) := by
  rcases h with h | h <;> rw [h]
  cases c.reader <;> simp [Reader.abort]

/-- Nothing but `do_read` with its bytes changes what is pending. -/
theorem completed_of_step (hother : concernsData c e = false) (hstep : c.step e = some c')
    (data : List UInt8) :
    c'.reader = .completed (some data) ↔ c.reader = .completed (some data) := by
  cases Connection.steps_of_step hstep with
  | send data => exact Iff.rfl
  | startReader hreader =>
    rw [hreader, Connection.readLoop]
    split <;> simp
  | @readCompletes result hreader hroom =>
    cases result with
    | none => rw [hreader]; simp
    | some data => cases hother
  | @resumeReader onData result hreader =>
    cases result with
    | none => rw [hreader]; simp [Connection.resumeReader, Connection.disconnect]
    | some data => simp [concernsData, hreader] at hother
  | startWriter hwriter => exact completed_of_abort (Or.inl (writeLoop_reader c)) data
  | writeCompletes success hwriter => exact Iff.rfl
  | wakeWriter hwriter => exact completed_of_abort (Or.inl (writeLoop_reader c)) data
  | resumeWriter hwriter => exact completed_of_abort (resumeWriter_reader c _ _) data

/-- `do_read` does not come back once it has ended. -/
theorem finished_of_step (hfinished : c.reader = .finished) (hstep : c.step e = some c') :
    c'.reader = .finished := by
  cases Connection.steps_of_step hstep with
  | send data => exact hfinished
  | startReader hreader => cases hfinished.symm.trans hreader
  | readCompletes hreader hroom => cases hfinished.symm.trans hreader
  | resumeReader onData hreader => cases hfinished.symm.trans hreader
  | startWriter hwriter => exact (writeLoop_reader c).trans hfinished
  | writeCompletes success hwriter => exact hfinished
  | wakeWriter hwriter => exact (writeLoop_reader c).trans hfinished
  | resumeWriter hwriter =>
    rcases resumeWriter_reader c _ _ with h | h
    · exact h.trans hfinished
    · rw [h, hfinished]
      rfl

theorem resumeReader_router (c : Connection) (onData : Nat → Verdict)
    (result : Option (List UInt8)) : (c.resumeReader onData result).router = c.router := by
  cases result with
  | none => rfl
  | some data =>
    rcases c.resumeReader_cases onData data with ⟨-, hgoes⟩ | ⟨-, hgoes⟩ | ⟨-, hgoes⟩
    · rw [hgoes, Connection.readLoop]
      split <;> rfl
    · rw [hgoes]
      rfl
    · rw [hgoes]
      rfl

/-- The handlers of a connection stay as they are. -/
theorem router_of_step (hstep : c.step e = some c') : c'.router = c.router := by
  cases Connection.steps_of_step hstep with
  | send data => rfl
  | startReader hreader =>
    unfold Connection.readLoop
    split <;> rfl
  | readCompletes hreader hroom => rfl
  | resumeReader onData hreader => exact resumeReader_router c onData _
  | startWriter hwriter => exact writeLoop_router c
  | writeCompletes success hwriter => rfl
  | wakeWriter hwriter => exact writeLoop_router c
  | @resumeWriter packet success hwriter =>
    cases success with
    | true => exact writeLoop_router _
    | false => rfl

/-- With one handler, what it makes of the data is what the router makes of it. -/
theorem resumeReader_alone (halone : c.router.inboundHandlers = [0]) (verdict : Verdict)
    (data : List UInt8) (hreader : (c.resumeReader (fun _ => verdict) (some data)).reader ≠
      .finished) : verdict = .accepts := by
  have hroute : (c.router.routeInbound fun _ => verdict).1 = verdict := by
    rw [DataRouter.routeInbound, halone]
    cases verdict <;> rfl
  rcases c.resumeReader_cases (fun _ => verdict) data with
    ⟨haccepts, -⟩ | ⟨-, hgoes⟩ | ⟨-, hgoes⟩
  · rw [← hroute, haccepts]
  · rw [hgoes] at hreader
    exact absurd rfl hreader
  · rw [hgoes] at hreader
    exact absurd rfl hreader

/-- Once `on_data` has had its bytes, `do_read` reads again or ends. -/
theorem resumeReader_ne_completed (c : Connection) (onData : Nat → Verdict)
    (data read : List UInt8) :
    (c.resumeReader onData (some data)).reader ≠ .completed (some read) := by
  rcases c.resumeReader_cases onData data with ⟨-, hgoes⟩ | ⟨-, hgoes⟩ | ⟨-, hgoes⟩
  · rw [hgoes, Connection.readLoop]
    split <;> exact Reader.noConfusion
  · rw [hgoes]
    exact Reader.noConfusion
  · rw [hgoes]
    exact Reader.noConfusion

end Receiver

/-! ## Runs -/

section Runs

variable {beyond : Beyond} {checksum : Checksum} {user : Call → Bool} {service : ServiceType}
variable {sent : List (List UInt8)} {s s' : Session}

/-- What holds of a link: the transport has a beginning of what was sent, `on_data` was given what
has arrived of it, in pieces that are not empty, and as long as `do_read` goes on it has accepted
all of them. -/
structure Conveying (beyond : Beyond) (checksum : Checksum) (user : Call → Bool)
    (service : ServiceType) (sent : List (List UInt8)) (s : Session) : Prop where
  order : s.sender.InOrder sent
  handed : HandedOver s.sender s.transmitted
  within : s.arrived ≤ s.transmitted.length
  passed : s.chunks.flatten ++ pending s.receiver = s.transmitted.take s.arrived
  alone : s.receiver.router.inboundHandlers = [0]
  chunks_ne : ∀ chunk ∈ s.chunks, chunk ≠ []
  read_ne : ∀ data, s.receiver.reader = .completed (some data) → data ≠ []
  accepted : s.receiver.reader ≠ .finished →
    Outcome.Accepts (ServiceConnection.onData beyond checksum user service) {} s.chunks s.calls
      s.inputStream

theorem conveying_start : Conveying beyond checksum user service [] {} where
  order := Connection.inOrder_of_idle rfl (Or.inl rfl)
  handed := ⟨[], rfl, rfl⟩
  within := Nat.le_refl 0
  passed := rfl
  alone := rfl
  chunks_ne := by simp
  read_ne := by
    intro data hreader
    cases hreader
  accepted := fun _ => Outcome.accepts_nil.2 ⟨rfl, rfl⟩

theorem Conveying.sender (h : Conveying beyond checksum user service sent s)
    {e : Connection.Event} {sender : Connection} (hmay : s.mayHappen e = true)
    (hstep : s.sender.step e = some sender) :
    Conveying beyond checksum user service (sent ++ Connection.packets [e]) { s with sender } :=
  { h with
    order := h.order.step hstep
    handed := h.handed.step h.order hmay hstep }

theorem Conveying.transmit (h : Conveying beyond checksum user service sent s)
    {packet : List UInt8} (hwriter : s.sender.writer = .writing packet) (n : Nat) :
    Conveying beyond checksum user service sent { s with
      transmitted := s.transmitted ++
        ((s.sender.written.flatten ++ packet).drop s.transmitted.length).take n } :=
  { h with
    handed := h.handed.transmit hwriter n
    within := by
      rw [List.length_append]
      exact Nat.le_add_right_of_le h.within
    passed := by rw [List.take_append_of_le_length h.within, h.passed] }

theorem Conveying.receiver (h : Conveying beyond checksum user service sent s)
    {e : Connection.Event} {receiver : Connection} (hother : concernsData s.receiver e = false)
    (hstep : s.receiver.step e = some receiver) :
    Conveying beyond checksum user service sent { s with receiver } :=
  { h with
    passed := by rw [pending_congr (completed_of_step hother hstep), h.passed]
    alone := by rw [router_of_step hstep, h.alone]
    read_ne := fun data hread => h.read_ne data ((completed_of_step hother hstep data).1 hread)
    accepted := fun hgoes => h.accepted fun hfinished => hgoes (finished_of_step hfinished hstep) }

/-- A read gets the next bytes that the transport has. -/
theorem Conveying.arrives (h : Conveying beyond checksum user service sent s) {n : Nat}
    {receiver : Connection} (hne : (s.transmitted.drop s.arrived).take n ≠ [])
    (hstep : s.receiver.step (.readCompletes (some ((s.transmitted.drop s.arrived).take n))) =
      some receiver) :
    Conveying beyond checksum user service sent { s with
      receiver, arrived := s.arrived + ((s.transmitted.drop s.arrived).take n).length } := by
  obtain ⟨data, hdata⟩ : ∃ data, (s.transmitted.drop s.arrived).take n = data := ⟨_, rfl⟩
  rw [hdata] at hne hstep ⊢
  have hread : s.receiver.reader = .reading ∧ receiver.reader = .completed (some data) ∧
      receiver.router = s.receiver.router := by
    cases Connection.steps_of_step hstep with
    | readCompletes hreader hroom => exact ⟨hreader, rfl, rfl⟩
  obtain ⟨hbefore, hafter, hrouter⟩ := hread
  have hprefix : data <+: s.transmitted.drop s.arrived := hdata ▸ List.take_prefix _ _
  have hempty : pending s.receiver = [] := by rw [pending, hbefore]
  have hbytes : pending receiver = data := by rw [pending, hafter]
  exact { h with
    within := by
      have hle := hprefix.length_le
      have hin := h.within
      rw [List.length_drop] at hle
      change s.arrived + data.length ≤ s.transmitted.length
      omega
    passed := by
      have hpassed := h.passed
      rw [hempty, List.append_nil] at hpassed
      rw [hbytes, List.take_add, hpassed, ← List.prefix_iff_eq_take.1 hprefix]
    alone := by rw [hrouter, h.alone]
    read_ne := by
      intro read hreadNow
      rw [hafter] at hreadNow
      cases hreadNow
      exact hne
    accepted := fun _ => h.accepted (by rw [hbefore]; exact Reader.noConfusion) }

/-- `on_data` is given what was read, whatever comes of it. -/
theorem Conveying.onData (h : Conveying beyond checksum user service sent s) {data : List UInt8}
    (hread : s.receiver.reader = .completed (some data)) (verdict : Verdict)
    (inputStream : MemoryStream) (calls : List Call)
    (haccepts : verdict = .accepts →
      ServiceConnection.onData beyond checksum user service data s.inputStream =
        .ok (true, calls) inputStream) :
    Conveying beyond checksum user service sent { s with
      receiver := s.receiver.resumeReader (fun _ => verdict) (some data)
      inputStream
      chunks := s.chunks ++ [data]
      calls := s.calls ++ calls } :=
  { h with
    passed := by
      have hbytes : pending s.receiver = data := by rw [pending, hread]
      rw [pending_eq_nil (resumeReader_ne_completed _ _ data), List.append_nil,
        List.flatten_append, List.flatten_singleton, ← h.passed, hbytes]
    alone := by rw [resumeReader_router, h.alone]
    chunks_ne := by
      intro chunk hmem
      rcases List.mem_append.1 hmem with hbefore | hlast
      · exact h.chunks_ne chunk hbefore
      · rw [List.mem_singleton.1 hlast]
        exact h.read_ne data hread
    read_ne := fun read hreadNow =>
      absurd hreadNow (resumeReader_ne_completed s.receiver (fun _ => verdict) data read)
    accepted := fun hgoes => by
      have hverdict := resumeReader_alone h.alone verdict data hgoes
      have hbefore : s.receiver.reader ≠ .finished := by
        rw [hread]
        exact Reader.noConfusion
      exact (h.accepted hbefore).concat (haccepts hverdict) }

theorem Conveying.step (h : Conveying beyond checksum user service sent s) {e : Event}
    (hstep : step beyond checksum user service s e = some s') :
    Conveying beyond checksum user service (sent ++ packets [e]) s' := by
  cases e with
  | sender e =>
    rw [Session.step] at hstep
    split at hstep
    · rename_i hmay
      obtain ⟨sender, hsender, rfl⟩ := Option.map_eq_some_iff.1 hstep
      have hpackets : packets [.sender e] = Connection.packets [e] := by
        cases e <;> rfl
      rw [hpackets]
      exact h.sender hmay hsender
    · cases hstep
  | transmit n =>
    rw [Session.step] at hstep
    split at hstep
    · rename_i packet hwriter
      cases hstep
      exact (List.append_nil sent).symm ▸ h.transmit hwriter n
    · cases hstep
  | receiver e =>
    rw [Session.step] at hstep
    split at hstep
    · cases hstep
    · rename_i hother
      obtain ⟨receiver, hreceiver, rfl⟩ := Option.map_eq_some_iff.1 hstep
      exact (List.append_nil sent).symm ▸ h.receiver (Bool.eq_false_iff.2 hother) hreceiver
  | arrives n =>
    simp only [Session.step] at hstep
    split at hstep
    · cases hstep
    · rename_i hne
      obtain ⟨receiver, hreceiver, rfl⟩ := Option.map_eq_some_iff.1 hstep
      exact (List.append_nil sent).symm ▸ h.arrives hne hreceiver
  | onData =>
    rw [Session.step] at hstep
    split at hstep
    · rename_i data hread
      split at hstep
      · rename_i ret calls inputStream hon
        cases hstep
        refine (List.append_nil sent).symm ▸ h.onData hread _ inputStream calls ?_
        intro hverdict
        cases ret with
        | true => exact hon
        | false => cases hverdict
      · rename_i what inputStream hon
        cases hstep
        have hnext := h.onData hread (.throws true) inputStream [] fun hverdict => by
          cases hverdict
        rw [List.append_nil] at hnext
        exact (List.append_nil sent).symm ▸ hnext
      · cases hstep
    · cases hstep

theorem conveying_run {es : List Event}
    (hrun : Runs.run (step beyond checksum user service) {} es = some s) :
    Conveying beyond checksum user service (packets es) s := by
  have hkeep : ∀ (es : List Event) (s : Session) (e : Event) (s' : Session),
      Conveying beyond checksum user service (packets es) s →
        step beyond checksum user service s e = some s' →
        Conveying beyond checksum user service (packets (es ++ [e])) s' := by
    intro es s e s' h hstep
    have hpackets : packets (es ++ [e]) = packets es ++ packets [e] := List.filterMap_append
    rw [hpackets]
    exact h.step hstep
  exact Runs.run_invariant_history hkeep conveying_start hrun

end Runs

/-- **End to end.** In every run, what `on_data` of the receiver was given is a beginning of what
was passed to `send`. Let the run come to rest: the writer sleeps, all that the transport took was
read and passed on, and `do_read` reads again. Then nothing is missing; and if the packets are the
frames of messages and the cuts are aligned with them, then the calls of the user's `on_data` are
those for the messages, in order, and nothing stays unread. -/
theorem delivered_end_to_end {beyond : Beyond} {checksum : Checksum} {user : Call → Bool}
    {service : ServiceType} {es : List Event} {s : Session}
    (hrun : Runs.run (step beyond checksum user service) {} es = some s) :
    s.chunks.flatten <+: (packets es).flatten ∧
      (s.sender.writer = .waiting false → s.arrived = s.transmitted.length →
        s.receiver.reader = .reading →
        s.chunks.flatten = (packets es).flatten ∧
          ∀ msgs : List SentMessage, packets es = msgs.map (SentMessage.frame checksum) →
            (∀ m ∈ msgs, m.payload.Fresh) →
            ServiceConnection.aligned 0 (msgs.map fun m => m.payload.bytes.length)
              (s.chunks.map List.length) = true →
            s.calls = msgs.map (ServiceConnection.callFor service) ∧
              s.inputStream.unread = []) := by
  have h := conveying_run hrun
  refine ⟨?_, ?_⟩
  · have htaken := h.handed.prefix h.order
    have hpassed : s.chunks.flatten <+: s.transmitted.take s.arrived := by
      rw [← h.passed]
      exact List.prefix_append _ _
    exact (hpassed.trans (List.take_prefix _ _)).trans htaken
  · intro hasleep harrived hreading
    have hwhole : s.chunks.flatten = (packets es).flatten := by
      have hpassed := h.passed
      rw [harrived, List.take_length, pending, hreading, List.append_nil] at hpassed
      rw [hpassed, h.handed.all h.order hasleep]
    refine ⟨hwhole, ?_⟩
    intro msgs hsent hfresh haligned
    -- `do_read` goes on, so the user's `on_data` has accepted every message
    have haccepted := (h.accepted (by rw [hreading]; exact Reader.noConfusion)).mono
      fun _ _ _ _ => ServiceConnection.onData_of_accepted
    have hcut : s.chunks.flatten = (ServiceConnection.wire checksum msgs).drop 0 := by
      rw [hwhole, hsent]
      rfl
    have hinbound := ServiceConnection.inbound_zero checksum msgs
    obtain ⟨t, hfed, hunread⟩ := ServiceConnection.feedsTo_of_aligned checksum (fun _ => true)
      service beyond (fun _ => rfl) h.chunks_ne hfresh hinbound hcut haligned
    obtain ⟨hcalls, rfl⟩ := haccepted.unique hfed
    exact ⟨hcalls, hunread⟩

/-- A request is sent, and it arrives in two pieces. -/
def requestInTwoPieces : List Event :=
  [.sender .startWriter, .receiver .startReader,
    .sender (.send (ServiceConnection.sampleRequest.frame crc32Ieee)), .sender .resumeWriter,
    .transmit 9, .arrives 1024, .transmit 1024, .onData, .arrives 1024,
    .sender (.writeCompletes true), .sender .resumeWriter, .onData]

theorem delivered_end_to_end_sample :
    let user (call : Call) : Bool := call.sender == 7
    ∃ s, Runs.run (step (fun _ => none) crc32Ieee user 1) {} requestInTwoPieces = some s ∧
      s.calls = [ServiceConnection.callFor 1 ServiceConnection.sampleRequest] := by
  intro user
  have hend : (Runs.run (step (fun _ => none) crc32Ieee user 1) {} requestInTwoPieces).map
      (fun s => (s.sender.writer, s.arrived, s.transmitted.length, s.receiver.reader,
        s.chunks.map List.length)) = some (.waiting false, 24, 24, .reading, [9, 15]) := by
    decide +kernel
  obtain ⟨s, hrun, hs⟩ := Option.map_eq_some_iff.1 hend
  simp only [Prod.mk.injEq] at hs
  obtain ⟨hasleep, harrived, htransmitted, hreading, hcuts⟩ := hs
  have hfresh : ∀ m ∈ [ServiceConnection.sampleRequest], m.payload.Fresh := by
    simp [ServiceConnection.sampleRequest]
  have hsent : packets requestInTwoPieces =
      [ServiceConnection.sampleRequest].map (SentMessage.frame crc32Ieee) := rfl
  have hdelivered := (delivered_end_to_end hrun).2 hasleep (by rw [harrived, htransmitted]) hreading
  exact ⟨s, hrun, (hdelivered.2 _ hsent hfresh (by rw [hcuts]; decide)).1⟩

end Session

end KeycapRoot.Network
