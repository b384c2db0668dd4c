import KeycapRoot.Lib.Runs
import KeycapRoot.Network.DataRouter

/-!
# Connections

A connection runs two coroutines, `do_read` and `do_write`. A step is a call of `send`, the
completion of an operation, or the resumption of a coroutine, which runs it to its next `co_await`.
An operation that completes queues its result; closing the socket aborts the operations that have
not completed, and leaves queued results as they are.

Whatever the order of the steps, what has been written and what waits in the queue is what has been
sent, and the writer does not sleep over a packet (`sent_in_order`).
-/

namespace KeycapRoot.Network

/-- A message handler is told of the link and of data. -/
inductive LinkEvent
  | link (status : LinkStatus)
  | data (bytes : List UInt8)
  deriving DecidableEq, Repr

/-- Where `do_read` is. The result of a read is its bytes, or nothing on an error. -/
inductive Reader
  | notStarted
  | reading
  | completed (result : Option (List UInt8))
  | finished
  deriving DecidableEq, Repr

/-- Where `do_write` is. A wait on the timer ends when it is cancelled; a write has been given the
packet at the front of the queue. -/
inductive Writer
  | notStarted
  | waiting (cancelled : Bool)
  | writing (packet : List UInt8)
  | completed (packet : List UInt8) (success : Bool)
  | finished
  deriving DecidableEq, Repr

/-- The socket has been closed under the operation that is under way. -/
def Reader.abort : Reader → Reader
  | .reading => .completed none
  | reader => reader

def Writer.abort : Writer → Writer
  | .writing packet => .completed packet false
  | writer => writer

/-- `send_timer_.cancel_one()`. -/
def Writer.cancelOne : Writer → Writer
  | .waiting _ => .waiting true
  | writer => writer

/-- A connection, what its handlers have been told so far, and the packets whose writing has
succeeded. A handler is its place in the order of registration. -/
structure Connection where
  router : DataRouter Nat
  socketOpen : Bool := true
  sendPacketQueue : List (List UInt8) := []
  reader : Reader := .notStarted
  writer : Writer := .notStarted
  told : List (Nat × LinkEvent) := []
  written : List (List UInt8) := []
  deriving DecidableEq, Repr

namespace Connection

/-! ## Steps -/

def tell (c : Connection) (handlers : List Nat) (e : LinkEvent) : Connection :=
  { c with told := c.told ++ handlers.map fun handler => (handler, e) }

/-- `handle_new_connection` with `handlers + 1` handlers registered: they are told that the link is
up, and `listen` spawns both coroutines. -/
def handleNewConnection (handlers : Nat) : Connection :=
  let c : Connection := { router := { inboundHandlers := List.range (handlers + 1) } }
  c.tell c.router.routeUpdatedLinkStatus (.link .up)

def stop (c : Connection) : Connection :=
  { c with socketOpen := false, reader := c.reader.abort, writer := c.writer.abort }

def send (c : Connection) (data : List UInt8) : Connection :=
  { c with
    sendPacketQueue := c.sendPacketQueue ++ [data]
    writer := c.writer.cancelOne }

/-- The loop of `do_read`, from its test on. -/
def readLoop (c : Connection) : Connection :=
  if c.socketOpen then { c with reader := .reading } else { c with reader := .finished }

/-- `do_read` tells the handlers that the link is down, stops the connection and ends. -/
def disconnect (c : Connection) : Connection :=
  { (c.tell c.router.routeUpdatedLinkStatus (.link .down)).stop with reader := .finished }

/-- `do_read` with the result of its read. -/
def resumeReader (c : Connection) (onData : Nat → Verdict) : Option (List UInt8) → Connection
  | none => c.disconnect
  | some data =>
    let routed := c.router.routeInbound onData
    let c := c.tell routed.2 (.data data)
    match routed.1 with
    | .accepts => c.readLoop
    | .refuses => c.disconnect
    | .throws true => c.disconnect
    -- the handler of `do_read` catches a `std::exception` only
    | .throws false => { c with reader := .finished }

/-- The loop of `do_write`, from its test on. -/
def writeLoop (c : Connection) : Connection :=
  if c.socketOpen then
    match c.sendPacketQueue with
    | [] => { c with writer := .waiting false }
    | packet :: _ => { c with writer := .writing packet }
  else { c with writer := .finished }

/-- `do_write` after its write. -/
def resumeWriter (c : Connection) (packet : List UInt8) : Bool → Connection
  | true => { c with
      sendPacketQueue := c.sendPacketQueue.tail
      written := c.written ++ [packet] }.writeLoop
  | false => { c.stop with writer := .finished }

inductive Event
  | send (data : List UInt8)
  | startReader
  | readCompletes (result : Option (List UInt8))
  | resumeReader (onData : Nat → Verdict)
  | startWriter
  | writeCompletes (success : Bool)
  | resumeWriter

def step (c : Connection) : Event → Option Connection
  | .send data => some (c.send data)
  | .startReader =>
    match c.reader with
    | .notStarted => some c.readLoop
    | _ => none
  | .readCompletes result =>
    match c.reader with
    -- the buffer holds 1024 bytes
    | .reading =>
      if (result.getD []).length ≤ 1024 then some { c with reader := .completed result } else none
    | _ => none
  | .resumeReader onData =>
    match c.reader with
    | .completed result => some (c.resumeReader onData result)
    | _ => none
  | .startWriter =>
    match c.writer with
    | .notStarted => some c.writeLoop
    | _ => none
  | .writeCompletes success =>
    match c.writer with
    | .writing packet => some { c with writer := .completed packet success }
    | _ => none
  | .resumeWriter =>
    match c.writer with
    | .waiting true => some c.writeLoop
    | .completed packet success => some (c.resumeWriter packet success)
    | _ => none

/-- What a step can do, with the guard under which it does so. -/
inductive Steps (c : Connection) : Event → Connection → Prop
  | send (data : List UInt8) : Steps c (.send data) (c.send data)
  | startReader (hreader : c.reader = .notStarted) : Steps c .startReader c.readLoop
  | readCompletes {result : Option (List UInt8)} (hreader : c.reader = .reading)
      (hroom : (result.getD []).length ≤ 1024) :
      Steps c (.readCompletes result) { c with reader := .completed result }
  | resumeReader (onData : Nat → Verdict) {result : Option (List UInt8)}
      (hreader : c.reader = .completed result) :
      Steps c (.resumeReader onData) (c.resumeReader onData result)
  | startWriter (hwriter : c.writer = .notStarted) : Steps c .startWriter c.writeLoop
  | writeCompletes {packet : List UInt8} (success : Bool) (hwriter : c.writer = .writing packet) :
      Steps c (.writeCompletes success) { c with writer := .completed packet success }
  | wakeWriter (hwriter : c.writer = .waiting true) : Steps c .resumeWriter c.writeLoop
  | resumeWriter {packet : List UInt8} {success : Bool}
      (hwriter : c.writer = .completed packet success) :
      Steps c .resumeWriter (c.resumeWriter packet success)

theorem steps_of_step {c c' : Connection} {e : Event} (hstep : step c e = some c') :
    Steps c e c' := by
  cases e with
  | send data =>
    cases hstep
    exact .send data
  | startReader =>
    simp only [step] at hstep
    split at hstep <;> cases hstep
    rename_i hreader
    exact .startReader hreader
  | readCompletes result =>
    simp only [step] at hstep
    split at hstep
    · rename_i hreader
      split at hstep <;> cases hstep
      rename_i hroom
      exact .readCompletes hreader hroom
    · cases hstep
  | resumeReader onData =>
    simp only [step] at hstep
    split at hstep <;> cases hstep
    rename_i result hreader
    exact .resumeReader onData hreader
  | startWriter =>
    simp only [step] at hstep
    split at hstep <;> cases hstep
    rename_i hwriter
    exact .startWriter hwriter
  | writeCompletes success =>
    simp only [step] at hstep
    split at hstep <;> cases hstep
    rename_i packet hwriter
    exact .writeCompletes success hwriter
  | resumeWriter =>
    simp only [step] at hstep
    split at hstep <;> cases hstep
    · rename_i hwriter
      exact .wakeWriter hwriter
    · rename_i packet success hwriter
      exact .resumeWriter hwriter

/-- `do_read` with the data it has read: what the handlers make of it decides how it goes on. -/
theorem resumeReader_cases (c : Connection) (onData : Nat → Verdict) (data : List UInt8) :
    let verdict := (c.router.routeInbound onData).1
    let told := c.tell (c.router.routeInbound onData).2 (.data data)
    (verdict = .accepts ∧ c.resumeReader onData (some data) = told.readLoop) ∨
    ((verdict = .refuses ∨ verdict = .throws true) ∧
      c.resumeReader onData (some data) = told.disconnect) ∨
    (verdict = .throws false ∧
      c.resumeReader onData (some data) = { told with reader := .finished }) := by
  intro verdict told
  rw [resumeReader]
  cases hverdict : (c.router.routeInbound onData).1 with
  | accepts => exact Or.inl ⟨hverdict, rfl⟩
  | refuses => exact Or.inr (Or.inl ⟨Or.inl hverdict, rfl⟩)
  | throws standard =>
    cases standard with
    | true => exact Or.inr (Or.inl ⟨Or.inr hverdict, rfl⟩)
    | false => exact Or.inr (Or.inr ⟨hverdict, rfl⟩)

/-! ## Packets -/

/-- The packets that are passed to `send`. -/
def packets (es : List Event) : List (List UInt8) :=
  es.filterMap fun
    | .send data => some data
    | _ => none

theorem packets_append_singleton (es : List Event) (e : Event) :
    packets (es ++ [e]) = packets es ++ packets [e] := List.filterMap_append

theorem send_or_quiet (e : Event) : (∃ data, e = .send data) ∨ packets [e] = [] := by
  cases e with
  | send data => exact Or.inl ⟨data, rfl⟩
  | _ => exact Or.inr rfl

/-- The queue begins with the packet that is being written, and it is empty while the writer
sleeps. -/
structure InOrder (sent : List (List UInt8)) (c : Connection) : Prop where
  order : c.written ++ c.sendPacketQueue = sent
  writing : ∀ packet, c.writer = .writing packet → c.sendPacketQueue.head? = some packet
  completed : ∀ packet success, c.writer = .completed packet success →
    c.sendPacketQueue.head? = some packet
  asleep : c.writer = .waiting false → c.sendPacketQueue = []

section InOrder

variable {sent : List (List UInt8)} {c : Connection}

/-- Of a writer that has not started or has ended nothing but the order is asked. -/
theorem inOrder_of_idle (horder : c.written ++ c.sendPacketQueue = sent)
    (hidle : c.writer = .notStarted ∨ c.writer = .finished) : InOrder sent c := by
  constructor
  · exact horder
  · intro packet hp
    rcases hidle with hw | hw <;> cases hw.symm.trans hp
  · intro packet success hp
    rcases hidle with hw | hw <;> cases hw.symm.trans hp
  · intro hp
    rcases hidle with hw | hw <;> cases hw.symm.trans hp

/-- What the reader does to the queue: nothing, except that it may abort a write. -/
theorem InOrder.of_abort (h : InOrder sent c) {c' : Connection} (hwritten : c'.written = c.written)
    (hqueue : c'.sendPacketQueue = c.sendPacketQueue)
    (hwriter : c'.writer = c.writer ∨ c'.writer = c.writer.abort) : InOrder sent c' := by
  have hcases : c'.writer = c.writer ∨
      ∃ packet, c.writer = .writing packet ∧ c'.writer = .completed packet false := by
    rcases hwriter with hsame | habort
    · exact Or.inl hsame
    · cases hw : c.writer with
      | writing packet => exact Or.inr ⟨packet, rfl, by rw [habort, hw]; rfl⟩
      | _ => exact Or.inl (by rw [habort, hw]; rfl)
  constructor
  · rw [hwritten, hqueue, h.order]
  · intro packet hp
    rw [hqueue]
    rcases hcases with hsame | ⟨packet', -, hdone⟩
    · exact h.writing packet (hsame ▸ hp)
    · rw [hdone] at hp
      cases hp
  · intro packet success hp
    rw [hqueue]
    rcases hcases with hsame | ⟨packet', hwriting, hdone⟩
    · exact h.completed packet success (hsame ▸ hp)
    · rw [hdone] at hp
      cases hp
      exact h.writing _ hwriting
  · intro hp
    rw [hqueue]
    rcases hcases with hsame | ⟨packet', -, hdone⟩
    · exact h.asleep (hsame ▸ hp)
    · rw [hdone] at hp
      cases hp

theorem InOrder.send (h : InOrder sent c) (data : List UInt8) :
    InOrder (sent ++ [data]) (c.send data) := by
  have hhead : ∀ packet, c.sendPacketQueue.head? = some packet →
      (c.sendPacketQueue ++ [data]).head? = some packet := fun packet hp => by
    rw [List.head?_append, hp]
    rfl
  constructor
  · rw [← h.order, List.append_assoc]
    rfl
  · intro packet hp
    cases hw : c.writer <;> simp only [Connection.send, hw, Writer.cancelOne] at hp <;> cases hp
    exact hhead _ (h.writing _ hw)
  · intro packet success hp
    cases hw : c.writer <;> simp only [Connection.send, hw, Writer.cancelOne] at hp <;> cases hp
    exact hhead _ (h.completed _ _ hw)
  · intro hp
    -- a sleeping writer has just been woken
    cases hw : c.writer <;> simp only [Connection.send, hw, Writer.cancelOne] at hp <;> cases hp

/-- At its test the loop of `do_write` needs nothing but the order. -/
theorem inOrder_writeLoop (horder : c.written ++ c.sendPacketQueue = sent) :
    InOrder sent c.writeLoop := by
  unfold writeLoop
  split
  · split
    · rename_i hq
      refine ⟨horder, ?_, ?_, fun _ => hq⟩
      · intro packet hp
        cases hp
      · intro packet success hp
        cases hp
    · rename_i packet rest hq
      refine ⟨horder, ?_, ?_, ?_⟩
      · intro packet hp
        cases hp
        rw [hq]
        rfl
      · intro packet success hp
        cases hp
      · intro hp
        cases hp
  · exact inOrder_of_idle horder (Or.inr rfl)

theorem InOrder.resumeWriter (h : InOrder sent c) {packet : List UInt8} {success : Bool}
    (hw : c.writer = .completed packet success) : InOrder sent (c.resumeWriter packet success) := by
  cases success with
  | true =>
    -- the packet that has been written is the front of the queue
    have hhead := h.completed packet true hw
    apply inOrder_writeLoop
    rw [← h.order]
    cases hq : c.sendPacketQueue with
    | nil => simp [hq] at hhead
    | cons front rest =>
      rw [hq] at hhead
      cases hhead
      simp
  | false => exact inOrder_of_idle h.order (Or.inr rfl)

theorem InOrder.readLoop (h : InOrder sent c) : InOrder sent c.readLoop := by
  unfold Connection.readLoop
  split <;> exact ⟨h.order, h.writing, h.completed, h.asleep⟩

theorem InOrder.disconnect (h : InOrder sent c) : InOrder sent c.disconnect :=
  h.of_abort rfl rfl (Or.inr rfl)

theorem InOrder.resumeReader (h : InOrder sent c) (onData : Nat → Verdict)
    (result : Option (List UInt8)) : InOrder sent (c.resumeReader onData result) := by
  cases result with
  | none => exact h.disconnect
  | some data =>
    have htold : InOrder sent (c.tell (c.router.routeInbound onData).2 (.data data)) :=
      h.of_abort rfl rfl (Or.inl rfl)
    rcases c.resumeReader_cases onData data with ⟨-, hgoes⟩ | ⟨-, hgoes⟩ | ⟨-, hgoes⟩
    · rw [hgoes]
      exact htold.readLoop
    · rw [hgoes]
      exact htold.disconnect
    · rw [hgoes]
      exact htold.of_abort rfl rfl (Or.inl rfl)

theorem InOrder.step (h : InOrder sent c) {e : Event} {c' : Connection}
    (hstep : step c e = some c') : InOrder (sent ++ packets [e]) c' := by
  rcases send_or_quiet e with ⟨data, rfl⟩ | hquiet
  · cases hstep
    exact h.send data
  · rw [hquiet, List.append_nil]
    cases steps_of_step hstep with
    | send data => cases hquiet
    | startReader hreader => exact h.readLoop
    | readCompletes hreader hroom => exact h.of_abort rfl rfl (Or.inl rfl)
    | resumeReader onData hreader => exact h.resumeReader onData _
    | startWriter hwriter => exact inOrder_writeLoop h.order
    | writeCompletes success hwriter =>
      refine ⟨h.order, ?_, ?_, ?_⟩
      · intro packet hp
        cases hp
      · intro packet success hp
        cases hp
        exact h.writing _ hwriter
      · intro hp
        cases hp
    | wakeWriter hwriter => exact inOrder_writeLoop h.order
    | resumeWriter hwriter => exact h.resumeWriter hwriter

end InOrder

/-- **Packets.** After every run the packets that have been written and the packets in the queue
are the packets passed to `send`, in order, and if the writer waits then the queue is empty or the
wait has been cancelled. -/
theorem sent_in_order {handlers : Nat} {es : List Event} {c : Connection}
    (hrun : Runs.run step (handleNewConnection handlers) es = some c) :
    c.written ++ c.sendPacketQueue = packets es ∧
      ∀ cancelled, c.writer = .waiting cancelled →
        c.sendPacketQueue = [] ∨ cancelled = true := by
  have h : InOrder (packets es) c := by
    have hkeep : ∀ (es : List Event) (c : Connection) (e : Event) (c' : Connection),
        InOrder (packets es) c → step c e = some c' → InOrder (packets (es ++ [e])) c' := by
      intro es c e c' h hstep
      rw [packets_append_singleton]
      exact h.step hstep
    exact Runs.run_invariant_history hkeep (inOrder_of_idle rfl (Or.inl rfl)) hrun
  refine ⟨h.order, ?_⟩
  intro cancelled hw
  cases cancelled with
  | true => exact Or.inr rfl
  | false => exact Or.inl (h.asleep hw)

/-- Two packets, the second of them sent while the first is being written. -/
def sendEvents : List Event :=
  [.startWriter, .send [1], .resumeWriter, .send [2], .writeCompletes true, .resumeWriter]

theorem sent_in_order_sample :
    ∃ c, Runs.run step (handleNewConnection 0) sendEvents = some c ∧ c.written = [[1]] ∧
      c.written ++ c.sendPacketQueue = [[1], [2]] := by
  have hwritten : (Runs.run step (handleNewConnection 0) sendEvents).map Connection.written =
      some [[1]] := by decide
  obtain ⟨c, hrun, hc⟩ := Option.map_eq_some_iff.1 hwritten
  exact ⟨c, hrun, hc, (sent_in_order hrun).1⟩

end Connection

end KeycapRoot.Network
