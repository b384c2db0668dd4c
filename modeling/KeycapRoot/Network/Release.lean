import KeycapRoot.Network.ThreadPool

/-!
# When a connection is released

The coroutines of a connection hold it, so it is released when both have ended. Closing the socket
aborts what is under way, and from there each coroutine ends the next time it runs. But a writer
that waits for something to send is not woken: a closed connection can come to its end by itself
exactly if its writer does not sleep (`ends_by_itself_iff`). And whatever becomes of it, no more
than the packet whose writing had succeeded is ever written (`written_of_closed`).
-/

namespace KeycapRoot.Network

namespace Connection

/-- No operation is under way on a closed socket. -/
structure Shut (c : Connection) : Prop where
  closed : c.socketOpen = false
  reader : c.reader ≠ .reading
  writer : ∀ packet, c.writer ≠ .writing packet

section Shut

variable {c c' : Connection}

theorem readLoop_of_closed (h : c.socketOpen = false) :
    c.readLoop = { c with reader := .finished } := by
  rw [readLoop, h]
  rfl

theorem writeLoop_of_closed (h : c.socketOpen = false) :
    c.writeLoop = { c with writer := .finished } := by
  rw [writeLoop, h]
  rfl

theorem shut_stop (c : Connection) : c.stop.Shut where
  closed := rfl
  reader := by
    change c.reader.abort ≠ .reading
    cases c.reader <;> exact Reader.noConfusion
  writer := by
    intro packet
    change c.writer.abort ≠ .writing packet
    cases c.writer <;> exact Writer.noConfusion

/-- Where the reader and the writer have not begun an operation, the socket stays shut. -/
theorem Shut.of_ends (h : c.Shut) (hclosed : c'.socketOpen = c.socketOpen)
    (hreader : c'.reader = c.reader ∨ c'.reader = .finished)
    (hwriter : c'.writer = c.writer ∨ c'.writer = .finished) : c'.Shut where
  closed := hclosed.trans h.closed
  reader := by
    rcases hreader with hr | hr <;> rw [hr]
    · exact h.reader
    · exact Reader.noConfusion
  writer := by
    rcases hwriter with hw | hw <;> rw [hw]
    · exact h.writer
    · exact fun packet => Writer.noConfusion

theorem Shut.send (h : c.Shut) (data : List UInt8) : (c.send data).Shut where
  closed := h.closed
  reader := h.reader
  writer := by
    intro packet hpacket
    cases hw : c.writer with
    | writing other => exact h.writer other hw
    | _ => simp [Connection.send, hw, Writer.cancelOne] at hpacket

theorem shut_disconnect (c : Connection) : c.disconnect.Shut :=
  (shut_stop (c.tell c.router.routeUpdatedLinkStatus (.link .down))).of_ends rfl (Or.inr rfl)
    (Or.inl rfl)

theorem Shut.resumeReader (h : c.Shut) (onData : Nat → Verdict) (result : Option (List UInt8)) :
    (c.resumeReader onData result).Shut := by
  cases result with
  | none => exact shut_disconnect c
  | some data =>
    have htold : (c.tell (c.router.routeInbound onData).2 (.data data)).Shut :=
      h.of_ends rfl (Or.inl rfl) (Or.inl rfl)
    rcases c.resumeReader_cases onData data with ⟨-, hgoes⟩ | ⟨-, hgoes⟩ | ⟨-, hgoes⟩
    · rw [hgoes, readLoop_of_closed htold.closed]
      exact htold.of_ends rfl (Or.inr rfl) (Or.inl rfl)
    · rw [hgoes]
      exact shut_disconnect _
    · rw [hgoes]
      exact htold.of_ends rfl (Or.inr rfl) (Or.inl rfl)

theorem Shut.resumeWriter (h : c.Shut) (packet : List UInt8) (success : Bool) :
    (c.resumeWriter packet success).Shut := by
  cases success with
  | true =>
    rw [Connection.resumeWriter, writeLoop_of_closed (by exact h.closed)]
    exact h.of_ends rfl (Or.inl rfl) (Or.inr rfl)
  | false => exact (shut_stop c).of_ends rfl (Or.inl rfl) (Or.inr rfl)

theorem Shut.writeLoop (h : c.Shut) : c.writeLoop.Shut := by
  rw [writeLoop_of_closed h.closed]
  exact h.of_ends rfl (Or.inl rfl) (Or.inr rfl)

theorem Shut.step (h : c.Shut) {e : Event} (hstep : step c e = some c') : c'.Shut := by
  cases steps_of_step hstep with
  | send data => exact h.send data
  | startReader hreader =>
    rw [readLoop_of_closed h.closed]
    exact h.of_ends rfl (Or.inr rfl) (Or.inl rfl)
  | readCompletes hreader hroom => exact absurd hreader h.reader
  | resumeReader onData hreader => exact h.resumeReader onData _
  | startWriter hwriter => exact h.writeLoop
  | writeCompletes success hwriter => exact absurd hwriter (h.writer _)
  | wakeWriter hwriter => exact h.writeLoop
  | resumeWriter hwriter => exact h.resumeWriter _ _

/-- A step that closes the socket shuts it. -/
theorem shut_of_closing (hopen : c.socketOpen = true) {e : Event} (hstep : step c e = some c')
    (hclosed : c'.socketOpen = false) : c'.Shut := by
  have hloop : ∀ d : Connection, d.writeLoop.socketOpen = d.socketOpen := by
    intro d
    unfold Connection.writeLoop
    split
    · split <;> rfl
    · rfl
  have hread : ∀ d : Connection, d.readLoop.socketOpen = d.socketOpen := by
    intro d
    unfold Connection.readLoop
    split <;> rfl
  cases steps_of_step hstep with
  | send data => cases hopen.symm.trans hclosed
  | startReader hreader => cases hopen.symm.trans ((hread c).symm.trans hclosed)
  | readCompletes hreader hroom => cases hopen.symm.trans hclosed
  | @resumeReader onData result hreader =>
    cases result with
    | none => exact shut_disconnect c
    | some data =>
      rcases c.resumeReader_cases onData data with ⟨-, hgoes⟩ | ⟨-, hgoes⟩ | ⟨-, hgoes⟩
      · rw [hgoes, hread] at hclosed
        cases hopen.symm.trans hclosed
      · rw [hgoes]
        exact shut_disconnect _
      · rw [hgoes] at hclosed
        cases hopen.symm.trans hclosed
  | startWriter hwriter => cases hopen.symm.trans ((hloop c).symm.trans hclosed)
  | writeCompletes success hwriter => cases hopen.symm.trans hclosed
  | wakeWriter hwriter => cases hopen.symm.trans ((hloop c).symm.trans hclosed)
  | @resumeWriter packet success hwriter =>
    cases success with
    | true =>
      rw [Connection.resumeWriter, hloop] at hclosed
      cases hopen.symm.trans hclosed
    | false => exact (shut_stop c).of_ends rfl (Or.inl rfl) (Or.inr rfl)

theorem shut_run {handlers : Nat} {es : List Event}
    (hrun : Runs.run step (handleNewConnection handlers) es = some c)
    (hclosed : c.socketOpen = false) : c.Shut := by
  have hkeep : ∀ (c : Connection) (e : Event) (c' : Connection),
      (c.socketOpen = false → c.Shut) → step c e = some c' → c'.socketOpen = false → c'.Shut := by
    intro c e c' h hstep hclosed
    cases hopen : c.socketOpen with
    | false => exact (h hopen).step hstep
    | true => exact shut_of_closing hopen hstep hclosed
  have hstart : (handleNewConnection handlers).socketOpen = false →
      (handleNewConnection handlers).Shut := fun h => by cases h
  exact Runs.run_invariant hkeep hstart hrun hclosed

end Shut

/-! ## Coming to an end -/

section Ends

variable {c c' : Connection}

theorem Shut.abort_writer (h : c.Shut) : c.writer.abort = c.writer := by
  cases hw : c.writer with
  | writing packet => exact absurd hw (h.writer packet)
  | _ => rfl

/-- On a closed socket `do_read` ends with whatever its read has brought. -/
theorem Shut.resumeReader_ends (h : c.Shut) (onData : Nat → Verdict)
    (result : Option (List UInt8)) :
    (c.resumeReader onData result).reader = .finished ∧
      (c.resumeReader onData result).writer = c.writer := by
  cases result with
  | none => exact ⟨rfl, h.abort_writer⟩
  | some data =>
    rcases c.resumeReader_cases onData data with ⟨-, hgoes⟩ | ⟨-, hgoes⟩ | ⟨-, hgoes⟩
    · rw [hgoes, readLoop_of_closed (by exact h.closed)]
      exact ⟨rfl, rfl⟩
    · rw [hgoes]
      exact ⟨rfl, h.abort_writer⟩
    · rw [hgoes]
      exact ⟨rfl, rfl⟩

/-- The reader ends the next time it runs, and leaves the writer as it is. -/
theorem reader_ends (h : c.Shut) :
    ∃ es c', packets es = [] ∧ Runs.run step c es = some c' ∧ c'.Shut ∧ c'.reader = .finished ∧
      c'.writer = c.writer := by
  cases hreader : c.reader with
  | notStarted =>
    refine ⟨[.startReader], { c with reader := .finished }, rfl, ?_,
      h.of_ends rfl (Or.inr rfl) (Or.inl rfl), rfl, rfl⟩
    simp [Runs.run, step, hreader, readLoop_of_closed h.closed]
  | reading => exact absurd hreader h.reader
  | completed result =>
    obtain ⟨hends, hwriter⟩ := h.resumeReader_ends (fun _ => .accepts) result
    refine ⟨[.resumeReader fun _ => .accepts], _, rfl, ?_, h.resumeReader _ _, hends, hwriter⟩
    simp [Runs.run, step, hreader]
  | finished => exact ⟨[], c, rfl, rfl, h, hreader, rfl⟩

/-- And so does a writer that does not sleep. -/
theorem writer_ends (h : c.Shut) (hreader : c.reader = .finished)
    (hawake : c.writer ≠ .waiting false) :
    ∃ es c', packets es = [] ∧ Runs.run step c es = some c' ∧ c'.Ended := by
  cases hwriter : c.writer with
  | notStarted =>
    refine ⟨[.startWriter], { c with writer := .finished }, rfl, ?_, hreader, rfl⟩
    simp [Runs.run, step, hwriter, writeLoop_of_closed h.closed]
  | waiting cancelled =>
    cases cancelled with
    | false => exact absurd hwriter hawake
    | true =>
      refine ⟨[.resumeWriter], { c with writer := .finished }, rfl, ?_, hreader, rfl⟩
      simp [Runs.run, step, hwriter, writeLoop_of_closed h.closed]
  | writing packet => exact absurd hwriter (h.writer packet)
  | completed packet success =>
    have hends : (c.resumeWriter packet success).Ended := by
      cases success with
      | true =>
        rw [resumeWriter, writeLoop_of_closed (by exact h.closed)]
        exact ⟨hreader, rfl⟩
      | false =>
        refine ⟨?_, rfl⟩
        change c.reader.abort = .finished
        rw [hreader]
        rfl
    refine ⟨[.resumeWriter], _, rfl, ?_, hends⟩
    simp [Runs.run, step, hwriter]
  | finished => exact ⟨[], c, rfl, rfl, hreader, hwriter⟩

/-- Nothing but `send` wakes a writer that sleeps. -/
theorem waiting_run {es : List Event} (hwaiting : c.writer = .waiting false)
    (hquiet : packets es = []) (hrun : Runs.run step c es = some c') :
    c'.writer = .waiting false := by
  induction es generalizing c with
  | nil =>
    cases hrun
    exact hwaiting
  | cons e es ih =>
    obtain ⟨c₁, he, hrest⟩ := Runs.run_cons_eq_some.1 hrun
    rcases send_or_quiet e with ⟨data, rfl⟩ | hquietHead
    · cases hquiet
    · have hsend : ∀ data, e ≠ .send data := by
        rintro data rfl
        cases hquietHead
      have htail : packets es = [] := by
        have hsplit : packets (e :: es) = packets [e] ++ packets es :=
          List.filterMap_append (l := [e])
        rw [hsplit, hquietHead] at hquiet
        exact hquiet
      exact ih (waiting_step hwaiting hsend he) htail hrest

/-- **Release.** In every state that a run reaches with the socket closed, the connection can come
to its end without another call of `send` if and only if its writer does not sleep. -/
theorem ends_by_itself_iff {handlers : Nat} {es : List Event}
    (hrun : Runs.run step (handleNewConnection handlers) es = some c)
    (hclosed : c.socketOpen = false) :
    (∃ later c', packets later = [] ∧ Runs.run step c later = some c' ∧ c'.Ended) ↔
      c.writer ≠ .waiting false := by
  constructor
  · rintro ⟨later, c', hquiet, hlater, -, hfinished⟩ hwaiting
    cases (waiting_run hwaiting hquiet hlater).symm.trans hfinished
  · intro hawake
    obtain ⟨first, c₁, hfirst, hrun₁, hshut, hreader, hwriter⟩ :=
      reader_ends (shut_run hrun hclosed)
    obtain ⟨second, c₂, hsecond, hrun₂, hended⟩ :=
      writer_ends hshut hreader (hwriter ▸ hawake)
    refine ⟨first ++ second, c₂, ?_, Runs.run_append_eq_some.2 ⟨c₁, hrun₁, hrun₂⟩, hended⟩
    have hsplit : packets (first ++ second) = packets first ++ packets second :=
      List.filterMap_append
    rw [hsplit, hfirst, hsecond, List.append_nil]

/-- The peer closes an idle link, or one on which a packet has just been sent. -/
def closedIdle : List Event :=
  [.startReader, .startWriter, .readCompletes none, .resumeReader fun _ => .accepts]

theorem ends_by_itself_iff_sample :
    (∃ c, Runs.run step (handleNewConnection 0) closedIdle = some c ∧
        ¬ ∃ later c', packets later = [] ∧ Runs.run step c later = some c' ∧ c'.Ended) ∧
      ∃ c, Runs.run step (handleNewConnection 0) (closedIdle ++ [.send [1]]) = some c ∧
        ∃ later c', packets later = [] ∧ Runs.run step c later = some c' ∧ c'.Ended := by
  constructor
  · have hend : (Runs.run step (handleNewConnection 0) closedIdle).map
        (fun c => (c.socketOpen, c.writer)) = some (false, .waiting false) := by decide
    obtain ⟨c, hrun, hc⟩ := Option.map_eq_some_iff.1 hend
    rw [Prod.mk.injEq] at hc
    exact ⟨c, hrun, fun hends => (ends_by_itself_iff hrun hc.1).1 hends hc.2⟩
  · have hend : (Runs.run step (handleNewConnection 0) (closedIdle ++ [.send [1]])).map
        (fun c => (c.socketOpen, c.writer)) = some (false, .waiting true) := by decide
    obtain ⟨c, hrun, hc⟩ := Option.map_eq_some_iff.1 hend
    rw [Prod.mk.injEq] at hc
    exact ⟨c, hrun, (ends_by_itself_iff hrun hc.1).2 (by rw [hc.2]; decide)⟩

end Ends

/-! ## What is written after the socket is closed -/

section Written

variable {c c' : Connection}

/-- On a closed socket nothing is written; only a write that had succeeded is still recorded. -/
theorem Shut.written_step (h : c.Shut) {e : Event} (hstep : Connection.step c e = some c') :
    (c'.written = c.written ∧
        ∀ packet, c'.writer = .completed packet true → c.writer = .completed packet true) ∨
      ∃ packet, c.writer = .completed packet true ∧ c'.written = c.written ++ [packet] ∧
        c'.writer = .finished := by
  cases steps_of_step hstep with
  | send data =>
    refine Or.inl ⟨rfl, ?_⟩
    intro packet hpacket
    cases hw : c.writer <;> simp only [Connection.send, hw, Writer.cancelOne] at hpacket <;>
      first | exact hpacket | cases hpacket
  | startReader hreader =>
    rw [readLoop_of_closed h.closed]
    exact Or.inl ⟨rfl, fun _ hpacket => hpacket⟩
  | readCompletes hreader hroom => exact absurd hreader h.reader
  | @resumeReader onData result hreader =>
    have hwriter := (h.resumeReader_ends onData result).2
    refine Or.inl ⟨?_, fun packet hpacket => hwriter ▸ hpacket⟩
    cases result with
    | none => rfl
    | some data =>
      rcases c.resumeReader_cases onData data with ⟨-, hgoes⟩ | ⟨-, hgoes⟩ | ⟨-, hgoes⟩
      · rw [hgoes, readLoop_of_closed (by exact h.closed)]
        rfl
      · rw [hgoes]
        rfl
      · rw [hgoes]
        rfl
  | startWriter hwriter =>
    rw [writeLoop_of_closed h.closed]
    exact Or.inl ⟨rfl, fun _ hpacket => by cases hpacket⟩
  | writeCompletes success hwriter => exact absurd hwriter (h.writer _)
  | wakeWriter hwriter =>
    rw [writeLoop_of_closed h.closed]
    exact Or.inl ⟨rfl, fun _ hpacket => by cases hpacket⟩
  | @resumeWriter packet success hwriter =>
    cases success with
    | true =>
      rw [Connection.resumeWriter, writeLoop_of_closed (by exact h.closed)]
      exact Or.inr ⟨packet, hwriter, rfl, rfl⟩
    | false => exact Or.inl ⟨rfl, fun _ hpacket => by cases hpacket⟩

/-- What has been written since a closed socket was seen: nothing, or the one packet whose write had
succeeded. -/
inductive WrittenSince (c d : Connection) : Prop
  | nothing (hsame : d.written = c.written)
      (hearlier : ∀ packet, d.writer = .completed packet true → c.writer = .completed packet true)
  | one {packet : List UInt8} (hdone : c.writer = .completed packet true)
      (hmore : d.written = c.written ++ [packet])
      (hno : ∀ packet, d.writer ≠ .completed packet true)

theorem WrittenSince.step {d d' : Connection} {e : Event} (h : WrittenSince c d) (hshut : d.Shut)
    (hstep : Connection.step d e = some d') : WrittenSince c d' := by
  rcases hshut.written_step hstep with ⟨hsame, hwriter⟩ | ⟨packet, hdone, hmore, hfinished⟩
  · cases h with
    | nothing hnone hearlier =>
      exact .nothing (hsame.trans hnone) fun packet hp => hearlier packet (hwriter packet hp)
    | one hone hpacket hno =>
      exact .one hone (hsame.trans hpacket) fun packet hp => hno packet (hwriter packet hp)
  · cases h with
    | nothing hnone hearlier =>
      refine .one (hearlier packet hdone) (hmore.trans (hnone ▸ rfl)) ?_
      rw [hfinished]
      exact fun _ => Writer.noConfusion
    | one _ _ hno => exact absurd hdone (hno packet)

/-- **After the end.** Behind every state that a run reaches with the socket closed, nothing is
written but a packet whose write had succeeded by then, whatever is sent. -/
theorem written_of_closed {handlers : Nat} {es later : List Event}
    (hrun : Runs.run step (handleNewConnection handlers) es = some c)
    (hclosed : c.socketOpen = false) (hlater : Runs.run step c later = some c') :
    c'.written = c.written ∨
      ∃ packet, c.writer = .completed packet true ∧ c'.written = c.written ++ [packet] := by
  have hkeep : ∀ (d : Connection) (e : Event) (d' : Connection), d.Shut ∧ WrittenSince c d →
      step d e = some d' → d'.Shut ∧ WrittenSince c d' :=
    fun d e d' ⟨hshut, hwritten⟩ hstep => ⟨hshut.step hstep, hwritten.step hshut hstep⟩
  have hstart : c.Shut ∧ WrittenSince c c :=
    ⟨shut_run hrun hclosed, .nothing rfl fun _ hp => hp⟩
  cases (Runs.run_invariant hkeep hstart hlater).2 with
  | nothing hsame _ => exact Or.inl hsame
  | one hdone hmore _ => exact Or.inr ⟨_, hdone, hmore⟩

theorem written_of_closed_sample :
    ∃ c c', Runs.run step (handleNewConnection 0) closedIdle = some c ∧
      Runs.run step c [.send [1], .resumeWriter] = some c' ∧ c'.written = [] := by
  have hend : (Runs.run step (handleNewConnection 0) closedIdle).map
      (fun c => (c.socketOpen, c.writer, c.written)) = some (false, .waiting false, []) := by decide
  obtain ⟨c, hrun, hc⟩ := Option.map_eq_some_iff.1 hend
  simp only [Prod.mk.injEq] at hc
  obtain ⟨hclosed, hwriter, hnone⟩ := hc
  have hlater : ∃ c', Runs.run step c [.send [1], .resumeWriter] = some c' := by
    simp [Runs.run, step, send, hwriter, Writer.cancelOne]
  obtain ⟨c', hlater⟩ := hlater
  refine ⟨c, c', hrun, hlater, ?_⟩
  rcases written_of_closed hrun hclosed hlater with h | ⟨packet, hp, -⟩
  · rw [h, hnone]
  · cases hwriter.symm.trans hp

end Written

end Connection

end KeycapRoot.Network
