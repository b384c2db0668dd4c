import KeycapRoot.Network.Connection

/-!
# What a handler is told of a link

A handler should be told that the link is up, then of data, and last, once `do_read` ends, that the
link is down. `do_read` says so when a read fails and when a handler refuses data or throws, but
not when its loop ends because the socket is closed: then `do_write` has closed it, before
`do_read` began or while data that the handlers accept waited for it. So the first handler is told
the whole story exactly in the runs where the loop is never tested on a closed socket
(`framed_iff_openAtTest`).
-/

namespace KeycapRoot.Network

namespace Connection

/-- What the first handler has been told. -/
def trace (c : Connection) : List LinkEvent :=
  (c.told.filter fun entry => entry.1 = 0).map Prod.snd

/-- The link comes up, data arrives, and the link goes down. -/
def story (data : List (List UInt8)) : List LinkEvent :=
  .link .up :: data.map .data ++ [.link .down]

/-- The first handler has been told a part of the story, and all of it once `do_read` has ended. -/
def Framed (c : Connection) : Prop :=
  (∃ data, c.trace <+: story data) ∧ (c.reader = .finished → ∃ data, c.trace = story data)

/-- The condition on a step: when `do_read` comes to the test of its loop the socket is open, and no
handler throws what `do_read` does not catch. -/
def openAtTest (c : Connection) : Event → Bool
  | .startReader => c.socketOpen
  | .resumeReader onData =>
    match c.reader, (c.router.routeInbound onData).1 with
    | .completed (some _), .accepts => c.socketOpen
    | .completed (some _), .throws standard => standard
    | _, _ => true
  | _ => true

/-! ## The trace -/

theorem trace_tell (c : Connection) {handlers : List Nat} {others : List Nat}
    (h : handlers = 0 :: others) (hothers : 0 ∉ others) (e : LinkEvent) :
    (c.tell handlers e).trace = c.trace ++ [e] := by
  have hnone : others.filter (fun handler => decide (handler = 0)) = [] := by
    rw [List.filter_eq_nil_iff]
    intro handler hmem hzero
    exact hothers (of_decide_eq_true hzero ▸ hmem)
  simp [trace, tell, h, List.filter_map, Function.comp_def, hnone]

/-- The first handler has been told a part of the story that begins with the link coming up, and
that ends with the link going down if `do_read` has ended. -/
structure Telling (c : Connection) : Prop where
  handlers : ∃ others, c.router.inboundHandlers = 0 :: others ∧ 0 ∉ others
  trace : ∃ data : List (List UInt8), c.trace = .link .up :: data.map .data ++
    if c.reader = .finished then [.link .down] else []

theorem telling_handleNewConnection (handlers : Nat) : Telling (handleNewConnection handlers) := by
  have hfirst : List.range (handlers + 1) = 0 :: (List.range handlers).map Nat.succ :=
    List.range_succ_eq_map
  have hothers : 0 ∉ (List.range handlers).map Nat.succ := by simp
  refine ⟨⟨_, hfirst, hothers⟩, [], ?_⟩
  exact trace_tell { router := { inboundHandlers := List.range (handlers + 1) } } hfirst hothers _

section Telling

variable {c : Connection}

theorem Telling.framed (h : Telling c) : c.Framed := by
  obtain ⟨data, htrace⟩ := h.trace
  refine ⟨⟨data, ?_⟩, fun hfinished => ⟨data, ?_⟩⟩
  · rw [htrace, story]
    split
    · exact List.prefix_rfl
    · rw [List.append_nil]
      exact List.prefix_append _ _
  · rw [htrace, if_pos hfinished, story]

/-- The trace of a connection whose reader has not ended. -/
theorem Telling.trace_of_ne_finished (h : Telling c) (hreader : c.reader ≠ .finished) :
    ∃ data : List (List UInt8), c.trace = .link .up :: data.map .data := by
  obtain ⟨data, htrace⟩ := h.trace
  exact ⟨data, by rw [htrace, if_neg hreader, List.append_nil]⟩

/-- What says nothing to the handlers, and neither ends `do_read` nor revives it, keeps to the
story. -/
theorem Telling.of_same (h : Telling c) {c' : Connection} (hrouter : c'.router = c.router)
    (htold : c'.told = c.told) (hreader : c'.reader = .finished ↔ c.reader = .finished) :
    Telling c' := by
  obtain ⟨data, htrace⟩ := h.trace
  refine ⟨hrouter ▸ h.handlers, data, ?_⟩
  rw [Connection.trace, htold, if_congr hreader rfl rfl]
  exact htrace

/-- Data is told to the first handler, whatever becomes of it. -/
theorem Telling.tell_data (h : Telling c) (hreader : c.reader ≠ .finished)
    (onData : Nat → Verdict) (data : List UInt8) :
    Telling (c.tell (c.router.routeInbound onData).2 (.data data)) := by
  obtain ⟨others, hfirst, hothers⟩ := h.handlers
  obtain ⟨called, hcalled, hsub⟩ := DataRouter.routeInbound_cons onData hfirst
  obtain ⟨earlier, htrace⟩ := h.trace_of_ne_finished hreader
  have hsame : (c.tell (c.router.routeInbound onData).2 (.data data)).reader ≠ .finished := hreader
  have hcalledOnce : 0 ∉ called := fun hmem => hothers (hsub.subset hmem)
  refine ⟨h.handlers, earlier ++ [data], ?_⟩
  rw [trace_tell c hcalled hcalledOnce, htrace, if_neg hsame, List.append_nil, List.map_append,
    List.map_singleton, List.cons_append]

theorem Telling.disconnect (h : Telling c) (hreader : c.reader ≠ .finished) :
    Telling c.disconnect := by
  obtain ⟨others, hfirst, hothers⟩ := h.handlers
  obtain ⟨data, htrace⟩ := h.trace_of_ne_finished hreader
  have hfinished : c.disconnect.reader = .finished := rfl
  refine ⟨h.handlers, data, ?_⟩
  rw [if_pos hfinished, ← htrace]
  exact trace_tell c hfirst hothers _

theorem Telling.readLoop (h : Telling c) (hreader : c.reader ≠ .finished)
    (hopen : c.socketOpen = true) : Telling c.readLoop := by
  rw [Connection.readLoop, if_pos hopen]
  exact h.of_same rfl rfl ⟨fun hread => (by cases hread), fun hread => absurd hread hreader⟩

/-- A reader that ends without a word breaks the story off. -/
theorem Telling.not_framed (h : Telling c) (hreader : c.reader ≠ .finished) {c' : Connection}
    (htold : c'.told = c.told) (hfinished : c'.reader = .finished) : ¬ c'.Framed := by
  rintro ⟨-, hend⟩
  obtain ⟨whole, hwhole⟩ := hend hfinished
  obtain ⟨data, htrace⟩ := h.trace_of_ne_finished hreader
  rw [Connection.trace, htold] at hwhole
  have hlast := congrArg List.getLast? (htrace.symm.trans hwhole)
  rw [story, List.getLast?_concat] at hlast
  have hmem := List.mem_of_getLast? hlast
  simp at hmem

/-! ## Steps -/

theorem Telling.writeLoop (h : Telling c) : Telling c.writeLoop := by
  unfold Connection.writeLoop
  split
  · split <;> exact h.of_same rfl rfl Iff.rfl
  · exact h.of_same rfl rfl Iff.rfl

theorem Telling.stop (h : Telling c) : Telling c.stop := by
  refine h.of_same rfl rfl ?_
  change c.reader.abort = .finished ↔ c.reader = .finished
  cases c.reader <;> simp [Reader.abort]

theorem Telling.resumeWriter (h : Telling c) (packet : List UInt8) (success : Bool) :
    Telling (c.resumeWriter packet success) := by
  cases success with
  | true => exact Telling.writeLoop (h.of_same rfl rfl Iff.rfl)
  | false => exact h.stop.of_same rfl rfl Iff.rfl

theorem Telling.step (h : Telling c) {e : Event} (hopen : c.openAtTest e = true) {c' : Connection}
    (hstep : Connection.step c e = some c') : Telling c' := by
  cases steps_of_step hstep with
  | send data => exact h.of_same rfl rfl Iff.rfl
  | startReader hreader => exact h.readLoop (by simp [hreader]) hopen
  | readCompletes hreader hroom => exact h.of_same rfl rfl (by simp [hreader])
  | @resumeReader onData result hreader =>
    have hne : c.reader ≠ .finished := by simp [hreader]
    cases result with
    | none => exact h.disconnect hne
    | some data =>
      have htold := h.tell_data hne onData data
      simp only [openAtTest, hreader] at hopen
      rcases c.resumeReader_cases onData data with
        ⟨hverdict, hgoes⟩ | ⟨-, hgoes⟩ | ⟨hverdict, -⟩
      · rw [hgoes]
        rw [hverdict] at hopen
        exact htold.readLoop hne hopen
      · rw [hgoes]
        exact htold.disconnect hne
      · rw [hverdict] at hopen
        cases hopen
  | startWriter hwriter => exact h.writeLoop
  | writeCompletes success hwriter => exact h.of_same rfl rfl Iff.rfl
  | wakeWriter hwriter => exact h.writeLoop
  | resumeWriter hwriter => exact h.resumeWriter _ _

/-- At a closed socket the loop of `do_read` ends without a word. -/
theorem Telling.not_framed_readLoop (h : Telling c) (hreader : c.reader ≠ .finished)
    (hclosed : c.socketOpen ≠ true) : ¬ c.readLoop.Framed := by
  rw [Connection.readLoop, if_neg hclosed]
  exact h.not_framed hreader rfl rfl

theorem Telling.not_framed_step (h : Telling c) {e : Event} (hclosed : c.openAtTest e ≠ true)
    {c' : Connection} (hstep : Connection.step c e = some c') : ¬ c'.Framed := by
  cases steps_of_step hstep with
  | startReader hreader => exact h.not_framed_readLoop (by simp [hreader]) hclosed
  | @resumeReader onData result hreader =>
    have hne : c.reader ≠ .finished := by simp [hreader]
    simp only [openAtTest, hreader] at hclosed
    cases result with
    | none => exact absurd rfl hclosed
    | some data =>
      have htold := h.tell_data hne onData data
      rcases c.resumeReader_cases onData data with
        ⟨hverdict, hgoes⟩ | ⟨hverdict | hverdict, -⟩ | ⟨-, hgoes⟩
      · rw [hgoes]
        rw [hverdict] at hclosed
        exact htold.not_framed_readLoop hne hclosed
      · rw [hverdict] at hclosed
        exact absurd rfl hclosed
      · rw [hverdict] at hclosed
        exact absurd rfl hclosed
      · rw [hgoes]
        exact htold.not_framed hne rfl rfl
  | _ => exact absurd rfl hclosed

end Telling

/-- **Link events.** In every state that a run reaches the first handler has been told a part of the
story, and all of it if `do_read` has ended, if and only if the socket is open whenever `do_read`
comes to the test of its loop and the handlers throw nothing but what `do_read` catches. -/
theorem framed_iff_openAtTest {handlers : Nat} {es : List Event} {c : Connection}
    (hrun : Runs.run step (handleNewConnection handlers) es = some c) :
    (∀ before c', before <+: es →
        Runs.run step (handleNewConnection handlers) before = some c' → c'.Framed) ↔
      Runs.Along step (fun c e => c.openAtTest e = true) (handleNewConnection handlers) es :=
  Runs.always_iff_along (fun _ h => h.framed) (fun _ _ _ h hopen hstep => h.step hopen hstep)
    (fun _ _ _ h hclosed hstep => h.not_framed_step hclosed hstep)
    (telling_handleNewConnection handlers) hrun

/-- Data arrives, and then the other side closes the connection. -/
def closedByPeer : List Event :=
  [.startReader, .startWriter, .readCompletes (some [1, 2]), .resumeReader fun _ => .accepts,
    .readCompletes none, .resumeReader fun _ => .accepts]

theorem framed_iff_openAtTest_sample :
    ∃ c, Runs.run step (handleNewConnection 0) closedByPeer = some c ∧ c.Framed ∧
      c.reader = .finished := by
  have hreader : (Runs.run step (handleNewConnection 0) closedByPeer).map Connection.reader =
      some .finished := by decide
  obtain ⟨c, hrun, hc⟩ := Option.map_eq_some_iff.1 hreader
  exact ⟨c, hrun, (framed_iff_openAtTest hrun).2 (by decide) _ c List.prefix_rfl hrun, hc⟩

/-- Data has arrived when a write fails, and `do_write` closes the socket. -/
def closedByWriter : List Event :=
  [.send [7], .startReader, .startWriter, .readCompletes (some [1, 2]), .writeCompletes false,
    .resumeWriter, .resumeReader fun _ => .accepts]

/-- The handler is told of the data, but not that the link is down. -/
theorem closed_by_writer_not_framed :
    ∃ c, Runs.run step (handleNewConnection 0) closedByWriter = some c ∧
      c.reader = .finished ∧ c.trace = [.link .up, .data [1, 2]] ∧ ¬ c.Framed := by
  have hend : (Runs.run step (handleNewConnection 0) closedByWriter).map
      (fun c => (c.reader, c.trace)) = some (.finished, [.link .up, .data [1, 2]]) := by decide
  obtain ⟨c, hrun, hc⟩ := Option.map_eq_some_iff.1 hend
  rw [Prod.mk.injEq] at hc
  refine ⟨c, hrun, hc.1, hc.2, ?_⟩
  intro hframed
  obtain ⟨data, hstory⟩ := hframed.2 hc.1
  have hlast := congrArg List.getLast? (hc.2.symm.trans hstory)
  rw [story, List.getLast?_concat] at hlast
  cases hlast

end Connection

end KeycapRoot.Network
