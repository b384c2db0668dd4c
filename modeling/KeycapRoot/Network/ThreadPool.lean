import KeycapRoot.Network.Connection

/-!
# The thread pool of a client

`start` and `restart` add `thread_count_` threads to the pool, whether or not threads of an earlier
start are still inside `io_context_.run()`. A thread leaves `run()` only when the context is stopped
or has nothing left to do, and a connect attempt or a coroutine of a connection that has not ended
is something to do. So the pool never has more threads inside `run()` than `thread_count_` exactly
if each start finds the context idle and left (`pool_bounded_iff`). After a link was lost it does
not: the writer of the dead connection waits on its timer, which keeps all threads inside
(`Stranded.run`).
-/

namespace KeycapRoot.Network

namespace Connection

/-- Both coroutines have ended. -/
def Ended (c : Connection) : Prop := c.reader = .finished ∧ c.writer = .finished

instance (c : Connection) : Decidable c.Ended := inferInstanceAs (Decidable (_ ∧ _))

/-- The events that run a coroutine, which takes a thread. -/
def Event.resumes : Event → Bool
  | .startReader | .resumeReader _ | .startWriter | .resumeWriter => true
  | .send _ | .readCompletes _ | .writeCompletes _ => false

/-- Coroutines that have ended stay so. -/
theorem Ended.step {c c' : Connection} {e : Event} (h : c.Ended) (hstep : step c e = some c') :
    c'.Ended := by
  obtain ⟨hreader, hwriter⟩ := h
  cases steps_of_step hstep with
  | send data => exact ⟨hreader, by rw [send, hwriter]; rfl⟩
  | startReader h => cases hreader.symm.trans h
  | readCompletes h hroom => cases hreader.symm.trans h
  | resumeReader onData h => cases hreader.symm.trans h
  | startWriter h => cases hwriter.symm.trans h
  | writeCompletes success h => cases hwriter.symm.trans h
  | wakeWriter h => cases hwriter.symm.trans h
  | resumeWriter h => cases hwriter.symm.trans h

/-- Only `send` wakes a writer that waits on its timer; closing the socket does not. -/
theorem waiting_step {c c' : Connection} {e : Event} (h : c.writer = .waiting false)
    (hsend : ∀ data, e ≠ .send data) (hstep : step c e = some c') :
    c'.writer = .waiting false := by
  have hloop : ∀ d : Connection, d.readLoop.writer = d.writer := by
    intro d
    rw [readLoop]
    split <;> rfl
  cases steps_of_step hstep with
  | send data => exact absurd rfl (hsend data)
  | startReader hreader => rw [hloop, h]
  | readCompletes hreader hroom => exact h
  | @resumeReader onData result hreader =>
    cases result with
    | none =>
      change c.writer.abort = _
      rw [h]
      rfl
    | some data =>
      rcases c.resumeReader_cases onData data with ⟨-, hgoes⟩ | ⟨-, hgoes⟩ | ⟨-, hgoes⟩
      · rw [hgoes, hloop]
        exact h
      · rw [hgoes]
        change c.writer.abort = _
        rw [h]
        rfl
      · rw [hgoes]
        exact h
  | startWriter hwriter => cases h.symm.trans hwriter
  | writeCompletes success hwriter => cases h.symm.trans hwriter
  | wakeWriter hwriter => cases h.symm.trans hwriter
  | resumeWriter hwriter => cases h.symm.trans hwriter

end Connection

/-- A service in client mode. `attempts` counts the coroutines of `connect` that have not ended, and
`inside` the threads that are inside `io_context_.run()`. -/
structure PooledService where
  threadCount : Int
  stopped : Bool := false
  inside : Nat := 0
  attempts : Nat := 0
  connections : List Connection := []
  deriving DecidableEq, Repr

namespace PooledService

/-! ## Steps -/

/-- `run_thread_pool()`: the context is restarted if it has been stopped, and the new threads call
`run()`. -/
def runThreadPool (s : PooledService) : PooledService :=
  { s with stopped := false, inside := s.inside + s.threadCount.toNat }

/-- `connect()` spawns a coroutine. -/
def connect (s : PooledService) : PooledService := { s with attempts := s.attempts + 1 }

/-- `start(host, port)`. It throws when the host cannot be resolved. -/
def start (s : PooledService) (resolved : Bool) : PooledService :=
  if resolved then s.connect.runThreadPool else s

def restart (s : PooledService) : PooledService := s.connect.runThreadPool

/-- There is no outstanding work. -/
def Idle (s : PooledService) : Prop := s.attempts = 0 ∧ ∀ c ∈ s.connections, c.Ended

instance (s : PooledService) : Decidable s.Idle := inferInstanceAs (Decidable (_ ∧ _))

/-- A thread is there to run a handler. -/
def Serving (s : PooledService) : Prop := 0 < s.inside ∧ s.stopped = false

instance (s : PooledService) : Decidable s.Serving := inferInstanceAs (Decidable (_ ∧ _))

/-- An attempt succeeds when the peer accepts it and `handle_new_connection` comes to `listen`; it
fails when the peer, the factory or `on_new_connection` refuses, or something throws. -/
inductive Event
  | start (resolved : Bool)
  | restart
  | connectSucceeds (handlers : Nat)
  | connectFails
  | connection (i : Nat) (e : Connection.Event)
  | threadReturns

def step (s : PooledService) : Event → Option PooledService
  | .start resolved => some (s.start resolved)
  | .restart => some s.restart
  | .connectSucceeds handlers =>
    if s.Serving ∧ 0 < s.attempts then
      some { s with
        attempts := s.attempts - 1
        connections := s.connections ++ [Connection.handleNewConnection handlers] }
    else none
  | .connectFails =>
    if s.Serving ∧ 0 < s.attempts then some { s with attempts := s.attempts - 1 } else none
  | .connection i e =>
    if e.resumes = true → s.Serving then
      match s.connections[i]? with
      | some c =>
        match c.step e with
        | some c' => some { s with connections := s.connections.set i c' }
        | none => none
      | none => none
    else none
  | .threadReturns =>
    -- a thread that finds nothing to do stops the context
    if 0 < s.inside ∧ (s.stopped = true ∨ s.Idle) then
      some { s with inside := s.inside - 1, stopped := true }
    else none

/-- A client service that was not started. -/
def new (threadCount : Int) : PooledService := { threadCount }

/-- What a step can do, with the guard under which it does so. -/
inductive Steps (s : PooledService) : Event → PooledService → Prop
  | start (resolved : Bool) : Steps s (.start resolved) (s.start resolved)
  | restart : Steps s .restart s.restart
  | connectSucceeds (handlers : Nat) (hserving : s.Serving) (hattempt : 0 < s.attempts) :
      Steps s (.connectSucceeds handlers) { s with
        attempts := s.attempts - 1
        connections := s.connections ++ [Connection.handleNewConnection handlers] }
  | connectFails (hserving : s.Serving) (hattempt : 0 < s.attempts) :
      Steps s .connectFails { s with attempts := s.attempts - 1 }
  | connection {i : Nat} {e : Connection.Event} {c c' : Connection}
      (hserving : e.resumes = true → s.Serving) (hc : s.connections[i]? = some c)
      (hgoes : c.step e = some c') :
      Steps s (.connection i e) { s with connections := s.connections.set i c' }
  | threadReturns (hinside : 0 < s.inside) (hdone : s.stopped = true ∨ s.Idle) :
      Steps s .threadReturns { s with inside := s.inside - 1, stopped := true }

theorem steps_of_step {s s' : PooledService} {e : Event} (hstep : step s e = some s') :
    Steps s e s' := by
  cases e with
  | start resolved =>
    cases hstep
    exact .start resolved
  | restart =>
    cases hstep
    exact .restart
  | connectSucceeds handlers =>
    simp only [step] at hstep
    split at hstep <;> cases hstep
    rename_i hguard
    exact .connectSucceeds handlers hguard.1 hguard.2
  | connectFails =>
    simp only [step] at hstep
    split at hstep <;> cases hstep
    rename_i hguard
    exact .connectFails hguard.1 hguard.2
  | connection i e =>
    simp only [step] at hstep
    split at hstep
    · rename_i hserving
      split at hstep
      · rename_i c hc
        split at hstep <;> cases hstep
        rename_i c' hgoes
        exact .connection hserving hc hgoes
      · cases hstep
    · cases hstep
  | threadReturns =>
    simp only [step] at hstep
    split at hstep <;> cases hstep
    rename_i hguard
    exact .threadReturns hguard.1 hguard.2

theorem start_cases (s : PooledService) (resolved : Bool) :
    resolved = true ∧ s.start resolved = s.restart ∨
      resolved = false ∧ s.start resolved = s := by
  cases resolved with
  | true => exact Or.inl ⟨rfl, rfl⟩
  | false => exact Or.inr ⟨rfl, rfl⟩

/-! ## The bound -/

/-- A context without work stays so while none is added. -/
theorem Idle.connection {s : PooledService} {i : Nat} {e : Connection.Event} {c c' : Connection}
    (h : s.Idle) (hc : s.connections[i]? = some c) (hstep : c.step e = some c') :
    Idle { s with connections := s.connections.set i c' } := by
  refine ⟨h.1, ?_⟩
  intro d hd
  rcases List.mem_or_eq_of_mem_set hd with hold | hnew
  · exact h.2 d hold
  · rw [hnew]
    exact (h.2 c (List.mem_of_getElem? hc)).step hstep

/-- The threads of the last start are inside `run()`, or they have left it with nothing to do. -/
structure Bounded (s : PooledService) : Prop where
  nonneg : 0 ≤ s.threadCount
  bound : (s.inside : Int) ≤ s.threadCount
  left : 0 < s.threadCount → s.inside = 0 → s.Idle
  stopped : s.stopped = true → s.Idle

/-- No thread of an earlier start is inside `run()`, and no work is left from it: no attempt is
under way, and both coroutines of every connection have ended. -/
def StartsIdle (s : PooledService) : Event → Prop
  | .start true | .restart => s.threadCount = 0 ∨ s.inside = 0 ∧ s.Idle
  | _ => True

instance (s : PooledService) : (e : Event) → Decidable (s.StartsIdle e)
  | .start true => inferInstanceAs (Decidable (_ ∨ _))
  | .restart => inferInstanceAs (Decidable (_ ∨ _))
  | .start false => isTrue trivial
  | .connectSucceeds _ => isTrue trivial
  | .connectFails => isTrue trivial
  | .connection _ _ => isTrue trivial
  | .threadReturns => isTrue trivial

section Bounded

variable {s s' : PooledService}

theorem Bounded.restart (h : s.Bounded) (hidle : s.threadCount = 0 ∨ s.inside = 0 ∧ s.Idle) :
    s.restart.Bounded := by
  have hnonneg := h.nonneg
  have hbound := h.bound
  constructor
  · exact hnonneg
  · change ((s.inside + s.threadCount.toNat : Nat) : Int) ≤ s.threadCount
    omega
  · intro hpos hleft
    change 0 < s.threadCount at hpos
    change s.inside + s.threadCount.toNat = 0 at hleft
    omega
  · intro hstopped
    cases hstopped

/-- With a thread that runs handlers, nothing but the number of threads is asked. -/
theorem Bounded.of_serving (h : s.Bounded) (hserving : s.Serving)
    (hcount : s'.threadCount = s.threadCount) (hinside : s'.inside = s.inside)
    (hstopped : s'.stopped = s.stopped) : s'.Bounded := by
  obtain ⟨hpos, hrunning⟩ := hserving
  constructor
  · rw [hcount]
    exact h.nonneg
  · rw [hcount, hinside]
    exact h.bound
  · intro _ hleft
    rw [hinside] at hleft
    omega
  · intro hstop
    cases (hstopped.trans hrunning).symm.trans hstop

theorem Bounded.step (h : s.Bounded) {e : Event} (hok : s.StartsIdle e)
    (hstep : s.step e = some s') : s'.Bounded := by
  cases steps_of_step hstep with
  | start resolved =>
    rcases s.start_cases resolved with ⟨rfl, hstart⟩ | ⟨rfl, hstart⟩
    · rw [hstart]
      exact h.restart hok
    · rwa [hstart]
  | restart => exact h.restart hok
  | connectSucceeds handlers hserving hattempt => exact h.of_serving hserving rfl rfl rfl
  | connectFails hserving hattempt => exact h.of_serving hserving rfl rfl rfl
  | connection hserving hc hgoes =>
    exact ⟨h.nonneg, h.bound, fun hpos hleft => (h.left hpos hleft).connection hc hgoes,
      fun hstopped => (h.stopped hstopped).connection hc hgoes⟩
  | threadReturns hinside hdone =>
    have hidle : s.Idle := hdone.elim h.stopped id
    have hbound := h.bound
    refine ⟨h.nonneg, ?_, fun _ _ => hidle, fun _ => hidle⟩
    change ((s.inside - 1 : Nat) : Int) ≤ s.threadCount
    omega

/-- A start that finds threads inside `run()` adds too many. -/
theorem Bounded.exceeds (h : s.Bounded) {e : Event} (hbad : ¬ s.StartsIdle e)
    (hstep : s.step e = some s') : ¬ (s'.inside : Int) ≤ s'.threadCount := by
  have hnonneg := h.nonneg
  have hexceeds : ¬ (s.threadCount = 0 ∨ s.inside = 0 ∧ s.Idle) →
      ¬ (s.restart.inside : Int) ≤ s.restart.threadCount := by
    intro hbusy
    have hpos : 0 < s.threadCount := by omega
    have hinside : s.inside ≠ 0 := fun hleft => hbusy (Or.inr ⟨hleft, h.left hpos hleft⟩)
    change ¬ ((s.inside + s.threadCount.toNat : Nat) : Int) ≤ s.threadCount
    omega
  cases steps_of_step hstep with
  | start resolved =>
    rcases s.start_cases resolved with ⟨rfl, hstart⟩ | ⟨rfl, hstart⟩
    · rw [hstart]
      exact hexceeds hbad
    · exact absurd trivial hbad
  | restart => exact hexceeds hbad
  | connectSucceeds handlers hserving hattempt => exact absurd trivial hbad
  | connectFails hserving hattempt => exact absurd trivial hbad
  | connection hserving hc hgoes => exact absurd trivial hbad
  | threadReturns hinside hdone => exact absurd trivial hbad

theorem bounded_new {threadCount : Int} (h : 0 ≤ threadCount) : (new threadCount).Bounded := by
  refine ⟨h, h, fun _ _ => ?_, fun hstopped => by cases hstopped⟩
  exact ⟨rfl, fun c hc => by cases hc⟩

end Bounded

/-- **The pool.** Throughout a run there are at most `thread_count_` threads inside `run()` if and
only if that is not negative and every start and restart of the run finds no thread there and no
work left. -/
theorem pool_bounded_iff {threadCount : Int} {es : List Event} {t : PooledService}
    (hrun : Runs.run step (new threadCount) es = some t) :
    (∀ before u, before <+: es → Runs.run step (new threadCount) before = some u →
      (u.inside : Int) ≤ u.threadCount) ↔
    0 ≤ threadCount ∧ Runs.Along step StartsIdle (new threadCount) es := by
  have hexact (hnonneg : 0 ≤ threadCount) := Runs.always_iff_along (fun _ h => h.bound)
    (fun _ _ _ h hok hstep => h.step hok hstep) (fun _ _ _ h hbad hstep => h.exceeds hbad hstep)
    (bounded_new hnonneg) hrun
  constructor
  · intro h
    have hnonneg : 0 ≤ threadCount := h [] _ List.nil_prefix rfl
    exact ⟨hnonneg, (hexact hnonneg).1 h⟩
  · rintro ⟨hnonneg, halong⟩
    exact (hexact hnonneg).2 halong

/-- A restart is fine once the one thread has connected in vain and left, but not at once. -/
theorem pool_bounded_iff_sample :
    (∃ u, Runs.run step (new 1) [.start true, .connectFails, .threadReturns, .restart] = some u ∧
      (u.inside : Int) ≤ u.threadCount) ∧
    ¬ ∀ before u, before <+: [.start true, .restart] →
      Runs.run step (new 1) before = some u → (u.inside : Int) ≤ u.threadCount := by
  refine ⟨?_, ?_⟩
  · have hrun : Runs.run step (new 1) [.start true, .connectFails, .threadReturns, .restart] =
        some { threadCount := 1, inside := 1, attempts := 1 } := by decide
    exact ⟨_, hrun, (pool_bounded_iff hrun).2 ⟨by decide, by decide⟩ _ _ (List.prefix_refl _) hrun⟩
  · intro h
    exact absurd ((pool_bounded_iff (t := { threadCount := 1, inside := 2, attempts := 2 }) rfl).1
      h).2 (by decide)

/-! ## Lost links -/

/-- The events that call `run_thread_pool`. -/
def Event.adds : Event → Bool
  | .start resolved => resolved
  | .restart => true
  | _ => false

/-- At least `n` threads are inside `run()`, and the writer of connection `i`, to which nothing is
left to be sent, waits on its timer. -/
structure Stranded (i n : Nat) (s : PooledService) : Prop where
  waiting : ∃ c, s.connections[i]? = some c ∧ c.writer = .waiting false
  running : s.stopped = false
  inside : n ≤ s.inside

section Stranded

variable {i n : Nat} {s s' t : PooledService}

theorem Stranded.restart (h : Stranded i n s) : Stranded i (n + s.threadCount.toNat) s.restart :=
  ⟨h.waiting, rfl, Nat.add_le_add_right h.inside _⟩

theorem Stranded.not_idle (h : Stranded i n s) : ¬ s.Idle := by
  intro hidle
  obtain ⟨c, hc, hwaiting⟩ := h.waiting
  cases hwaiting.symm.trans (hidle.2 c (List.mem_of_getElem? hc)).2

/-- No thread leaves, and each start adds its threads to those that are there. -/
theorem Stranded.step (h : Stranded i n s) {e : Event}
    (hsend : ∀ data, e ≠ .connection i (.send data)) (hstep : s.step e = some s') :
    s'.threadCount = s.threadCount ∧
      Stranded i (n + if e.adds then s.threadCount.toNat else 0) s' := by
  obtain ⟨c, hc, hwaiting⟩ := h.waiting
  cases steps_of_step hstep with
  | start resolved =>
    rcases s.start_cases resolved with ⟨rfl, hstart⟩ | ⟨rfl, hstart⟩
    · rw [hstart]
      exact ⟨rfl, h.restart⟩
    · rw [hstart]
      exact ⟨rfl, h⟩
  | restart => exact ⟨rfl, h.restart⟩
  | connectSucceeds handlers hserving hattempt =>
    refine ⟨rfl, ⟨c, ?_, hwaiting⟩, h.running, h.inside⟩
    rw [List.getElem?_append_left (List.getElem?_eq_some_iff.1 hc).1, hc]
  | connectFails hserving hattempt => exact ⟨rfl, h.waiting, h.running, h.inside⟩
  | @connection j e d d' hserving hd hgoes =>
    refine ⟨rfl, ?_, h.running, h.inside⟩
    by_cases hij : j = i
    · subst hij
      cases hd.symm.trans hc
      have hsend' : ∀ data, e ≠ .send data := by
        rintro data rfl
        exact hsend data rfl
      exact ⟨d', List.getElem?_set_self (List.getElem?_eq_some_iff.1 hc).1,
        Connection.waiting_step hwaiting hsend' hgoes⟩
    · exact ⟨c, by rw [List.getElem?_set_ne hij, hc], hwaiting⟩
  | threadReturns hinside hdone =>
    rcases hdone with hstopped | hidle
    · cases h.running.symm.trans hstopped
    · exact absurd hidle h.not_idle

/-- As long as nothing is sent on the connection, the threads of all starts pile up. -/
theorem Stranded.run (h : Stranded i n s) {es : List Event}
    (hsend : ∀ data, .connection i (.send data) ∉ es)
    (hrun : Runs.run PooledService.step s es = some t) :
    n + es.countP Event.adds * s.threadCount.toNat ≤ t.inside := by
  induction es generalizing s n with
  | nil =>
    cases hrun
    simpa using h.inside
  | cons e es ih =>
    obtain ⟨s', he, hrest⟩ := Runs.run_cons_eq_some.1 hrun
    obtain ⟨hcount, hnext⟩ := h.step (fun data hdata => hsend data (by simp [hdata])) he
    have hpile := ih hnext (fun data hmem => hsend data (List.mem_cons_of_mem _ hmem)) hrest
    rw [hcount] at hpile
    rw [List.countP_cons, Nat.add_mul]
    cases hadds : e.adds with
    | true =>
      simp only [hadds, if_true] at hpile ⊢
      omega
    | false =>
      simp only [hadds] at hpile ⊢
      simpa using hpile

end Stranded

/-- The link of the only connection is lost while its writer waits for something to send. -/
def lostLink : List Event :=
  [.start true, .connectSucceeds 0, .connection 0 .startReader, .connection 0 .startWriter,
    .connection 0 (.readCompletes none), .connection 0 (.resumeReader fun _ => .accepts)]

/-- The handler has been told that the link is down, and the service is restarted: its one thread is
joined by a second. -/
theorem restart_exceeds :
    ∃ s t, Runs.run step (new 1) lostLink = some s ∧ Stranded 0 1 s ∧
      Runs.run step (new 1) (lostLink ++ [.restart]) = some t ∧ t.threadCount = 1 ∧
      t.inside = 2 := by
  let c : Connection := {
    router := { inboundHandlers := [0] }
    socketOpen := false
    reader := .finished
    writer := .waiting false
    told := [(0, .link .up), (0, .link .down)] }
  let s : PooledService := { threadCount := 1, inside := 1, connections := [c] }
  have hrun : Runs.run step (new 1) lostLink = some s := by decide
  have hrestart : Runs.run step (new 1) (lostLink ++ [.restart]) = some s.restart :=
    Runs.run_append_eq_some.2 ⟨s, hrun, rfl⟩
  exact ⟨s, s.restart, hrun, ⟨⟨c, rfl, rfl⟩, rfl, Nat.le_refl 1⟩, hrestart, rfl, rfl⟩

end PooledService

end KeycapRoot.Network
