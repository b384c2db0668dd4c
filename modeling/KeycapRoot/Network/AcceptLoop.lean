import KeycapRoot.Lib.Runs
import KeycapRoot.Network.DataRouter

/-!
# The accept loop of a server

`do_listen` accepts one connection after the other and hands each of them to
`handle_new_connection`, which calls the factory, the veto and the link handlers of the user. It
catches nothing, and it is spawned `detached`: the first exception, of an accept or of one of these
calls, ends the loop without a trace, and `running()` goes on to be true. A server that is running
is listening exactly if none of that happens while it runs (`listens_iff`), and once it is not
listening it never does again (`deaf_run`).
-/

namespace KeycapRoot.Network

/-- How a call of user code that returns a boolean ends. -/
inductive CallResult
  | returns (value : Bool)
  | throws
  deriving DecidableEq, Repr

/-- Where `do_listen` is. The last three are the stages of `handle_new_connection`; a message handler
is its place in the order of registration. -/
inductive Listener
  | notStarted
  | accepting
  | making
  | asking (router : DataRouter Nat)
  | routing (router : DataRouter Nat) (status : LinkStatus) (handlers : List Nat)
  | finished
  deriving DecidableEq, Repr

/-- An accepted connection is being handled. -/
def Listener.Handling : Listener → Prop
  | .making | .asking _ | .routing _ _ _ => True
  | .notStarted | .accepting | .finished => False

instance : (listener : Listener) → Decidable listener.Handling
  | .making | .asking _ | .routing _ _ _ => isTrue trivial
  | .notStarted | .accepting | .finished => isFalse id

/-- A service in server mode, and the connections on which `listen` was called. -/
structure ServerService where
  running : Bool
  listener : Listener := .notStarted
  connections : List (DataRouter Nat) := []
  deriving DecidableEq, Repr

namespace ServerService

/-! ## Steps -/

/-- The service after `start`, or after `restart`. -/
def started : ServerService := { running := true }

/-- The loop of `do_listen`, from its test on. -/
def acceptLoop (s : ServerService) : ServerService :=
  if s.running then { s with listener := .accepting } else { s with listener := .finished }

/-- An exception leaves `do_listen`. -/
def throw (s : ServerService) : ServerService := { s with listener := .finished }

/-- `route_updated_link_status` from some handler on, and what `handle_new_connection` does after
it: a connection that is up listens. -/
def route (s : ServerService) (router : DataRouter Nat) (status : LinkStatus) :
    List Nat → ServerService
  | [] =>
    match status with
    | .up => { s with connections := s.connections ++ [router] }.acceptLoop
    | _ => s.acceptLoop
  | handler :: handlers => { s with listener := .routing router status (handler :: handlers) }

/-- `handle_new_connection` after `on_new_connection`. -/
def answered (s : ServerService) (router : DataRouter Nat) (value : Bool) : ServerService :=
  if value then s.route router .up router.routeUpdatedLinkStatus
  else s.route router .failed router.routeUpdatedLinkStatus

/-- What `make_handler` returns is known by the router of the new connection; it throws if there is
none. -/
inductive Event
  | begin
  | accept (success : Bool)
  | makeHandler (router : Option (DataRouter Nat))
  | onNewConnection (result : CallResult)
  | onLink (result : CallResult)
  | stop
  deriving DecidableEq, Repr

def step (s : ServerService) : Event → Option ServerService
  | .begin =>
    match s.listener with
    | .notStarted => some s.acceptLoop
    | _ => none
  | .accept success =>
    match s.listener with
    | .accepting => some (if success then { s with listener := .making } else s.throw)
    | _ => none
  | .makeHandler router =>
    match s.listener with
    | .making =>
      match router with
      | some router => some { s with listener := .asking router }
      | none => some s.throw
    | _ => none
  | .onNewConnection result =>
    match s.listener with
    | .asking router =>
      match result with
      | .returns value => some (s.answered router value)
      | .throws => some s.throw
    | _ => none
  | .onLink result =>
    match s.listener with
    | .routing router status (_ :: handlers) =>
      match result with
      -- what a handler returns is not looked at
      | .returns _ => some (s.route router status handlers)
      | .throws => some s.throw
    | _ => none
  | .stop => some { s with running := false }

/-- What a step can do, with the guard under which it does so. -/
inductive Steps (s : ServerService) : Event → ServerService → Prop
  | begin (h : s.listener = .notStarted) : Steps s .begin s.acceptLoop
  | accept (h : s.listener = .accepting) : Steps s (.accept true) { s with listener := .making }
  | acceptFails (h : s.listener = .accepting) : Steps s (.accept false) s.throw
  | makeHandler (router : DataRouter Nat) (h : s.listener = .making) :
      Steps s (.makeHandler (some router)) { s with listener := .asking router }
  | makeHandlerThrows (h : s.listener = .making) : Steps s (.makeHandler none) s.throw
  | onNewConnection {router : DataRouter Nat} (value : Bool) (h : s.listener = .asking router) :
      Steps s (.onNewConnection (.returns value)) (s.answered router value)
  | onNewConnectionThrows {router : DataRouter Nat} (h : s.listener = .asking router) :
      Steps s (.onNewConnection .throws) s.throw
  | onLink {router : DataRouter Nat} {status : LinkStatus} {handler : Nat} {handlers : List Nat}
      (value : Bool) (h : s.listener = .routing router status (handler :: handlers)) :
      Steps s (.onLink (.returns value)) (s.route router status handlers)
  | onLinkThrows {router : DataRouter Nat} {status : LinkStatus} {handler : Nat}
      {handlers : List Nat} (h : s.listener = .routing router status (handler :: handlers)) :
      Steps s (.onLink .throws) s.throw
  | stop : Steps s .stop { s with running := false }

theorem steps_of_step {s s' : ServerService} {e : Event} (hstep : step s e = some s') :
    Steps s e s' := by
  cases e with
  | begin =>
    simp only [step] at hstep
    split at hstep <;> cases hstep
    rename_i h
    exact .begin h
  | accept success =>
    simp only [step] at hstep
    split at hstep <;> cases hstep
    rename_i h
    cases success with
    | true => exact .accept h
    | false => exact .acceptFails h
  | makeHandler router =>
    simp only [step] at hstep
    split at hstep
    · rename_i h
      cases router with
      | some router =>
        cases hstep
        exact .makeHandler router h
      | none =>
        cases hstep
        exact .makeHandlerThrows h
    · cases hstep
  | onNewConnection result =>
    simp only [step] at hstep
    split at hstep
    · rename_i router h
      cases result with
      | returns value =>
        cases hstep
        exact .onNewConnection value h
      | throws =>
        cases hstep
        exact .onNewConnectionThrows h
    · cases hstep
  | onLink result =>
    simp only [step] at hstep
    split at hstep
    · rename_i router status handler handlers h
      cases result with
      | returns value =>
        cases hstep
        exact .onLink value h
      | throws =>
        cases hstep
        exact .onLinkThrows h
    · cases hstep
  | stop =>
    cases hstep
    exact .stop

/-! ## Listening -/

/-- If the service is running and `do_listen` has begun, an accept is outstanding or an accepted
connection is being handled. -/
def Listens (s : ServerService) : Prop :=
  s.running = true → s.listener ≠ .notStarted →
    s.listener = .accepting ∨ s.listener.Handling

/-- The loop has not ended under a running service. -/
def Alive (s : ServerService) : Prop := s.running = true → s.listener ≠ .finished

/-- No accept fails, and nothing that handles a new connection throws, while the service runs. -/
def Harmless (s : ServerService) : Event → Prop
  | .accept false | .makeHandler none | .onNewConnection .throws | .onLink .throws =>
    s.running = false
  | _ => True

instance (s : ServerService) : (e : Event) → Decidable (s.Harmless e)
  | .accept false => inferInstanceAs (Decidable (_ = _))
  | .makeHandler none => inferInstanceAs (Decidable (_ = _))
  | .onNewConnection .throws => inferInstanceAs (Decidable (_ = _))
  | .onLink .throws => inferInstanceAs (Decidable (_ = _))
  | .begin => isTrue trivial
  | .accept true => isTrue trivial
  | .makeHandler (some _) => isTrue trivial
  | .onNewConnection (.returns _) => isTrue trivial
  | .onLink (.returns _) => isTrue trivial
  | .stop => isTrue trivial

section Listens

variable {s s' : ServerService}

theorem listens_iff_alive : s.Listens ↔ s.Alive := by
  unfold Listens Alive
  cases s.listener <;> simp [Listener.Handling]

theorem alive_acceptLoop (s : ServerService) : s.acceptLoop.Alive := by
  intro hrunning
  unfold acceptLoop at hrunning ⊢
  split
  · intro hfinished
    cases hfinished
  · rename_i hstopped
    rw [if_neg hstopped] at hrunning
    exact absurd hrunning hstopped

theorem alive_route (s : ServerService) (router : DataRouter Nat) (status : LinkStatus)
    (handlers : List Nat) : (s.route router status handlers).Alive := by
  cases handlers with
  | nil => cases status <;> exact alive_acceptLoop _
  | cons handler handlers =>
    intro _ hfinished
    cases hfinished

theorem alive_of_harmless {e : Event} (hok : s.Harmless e) (hstep : s.step e = some s') :
    s'.Alive := by
  -- an exception is harmless only in a service that does not run
  have hthrow : s.running = false → s.throw.Alive := by
    intro hstopped hrunning
    exact absurd (hstopped.symm.trans hrunning) (by decide)
  cases steps_of_step hstep with
  | begin => exact alive_acceptLoop s
  | accept h => exact fun _ hfinished => by cases hfinished
  | acceptFails h => exact hthrow hok
  | makeHandler router h => exact fun _ hfinished => by cases hfinished
  | makeHandlerThrows h => exact hthrow hok
  | onNewConnection value h =>
    rw [answered]
    split <;> exact alive_route _ _ _ _
  | onNewConnectionThrows h => exact hthrow hok
  | onLink value h => exact alive_route _ _ _ _
  | onLinkThrows h => exact hthrow hok
  | stop => exact fun hrunning => by cases hrunning

theorem not_alive_of_throw {e : Event} (hbad : ¬ s.Harmless e) (hstep : s.step e = some s') :
    ¬ s'.Alive := by
  have hthrow : ¬ s.running = false → ¬ s.throw.Alive := by
    intro hrunning halive
    exact halive (Bool.of_not_eq_false hrunning) rfl
  cases steps_of_step hstep with
  | begin h => exact absurd trivial hbad
  | accept h => exact absurd trivial hbad
  | acceptFails h => exact hthrow hbad
  | makeHandler router h => exact absurd trivial hbad
  | makeHandlerThrows h => exact hthrow hbad
  | onNewConnection value h => exact absurd trivial hbad
  | onNewConnectionThrows h => exact hthrow hbad
  | onLink value h => exact absurd trivial hbad
  | onLinkThrows h => exact hthrow hbad
  | stop => exact absurd trivial hbad

/-- **Accepting.** In every state that a run reaches the service listens as long as it is running,
if and only if no accept of the run fails and no handling of a connection throws while it is
running. -/
theorem listens_iff {es : List Event} {t : ServerService}
    (hrun : Runs.run step started es = some t) :
    (∀ before u, before <+: es → Runs.run step started before = some u → u.Listens) ↔
      Runs.Along step Harmless started es := by
  have hstart : started.Alive := fun _ hfinished => by cases hfinished
  exact Runs.always_iff_along (fun _ h => listens_iff_alive.2 h)
    (fun _ _ _ _ hok hstep => alive_of_harmless hok hstep)
    (fun _ _ _ _ hbad hstep h => not_alive_of_throw hbad hstep (listens_iff_alive.1 h)) hstart hrun

/-- One connection is refused by `on_new_connection`, and the next one listens. -/
def acceptEvents : List Event :=
  [.begin, .accept true, .makeHandler (some { inboundHandlers := [0] }),
    .onNewConnection (.returns false), .onLink (.returns false), .accept true,
    .makeHandler (some { inboundHandlers := [0] }), .onNewConnection (.returns true),
    .onLink (.returns true)]

theorem listens_iff_sample :
    (∃ u, Runs.run step started acceptEvents = some u ∧ u.Listens ∧ u.connections.length = 1) ∧
      ¬ ∀ before u, before <+: [.begin, .accept false] →
        Runs.run step started before = some u → u.Listens := by
  refine ⟨?_, ?_⟩
  · have hrun : Runs.run step started acceptEvents = some
        { running := true, listener := .accepting, connections := [{ inboundHandlers := [0] }] } := by
      decide
    exact ⟨_, hrun, (listens_iff hrun).2 (by decide) _ _ (List.prefix_refl _) hrun, rfl⟩
  · intro h
    exact absurd ((listens_iff (t := { running := true, listener := .finished }) rfl).1 h)
      (by decide)

/-! ## Deafness -/

/-- Nothing restarts a loop that has ended. -/
theorem deaf_step {e : Event} (h : s.listener = .finished) (hstep : s.step e = some s') :
    s'.listener = .finished ∧ s'.connections = s.connections := by
  cases steps_of_step hstep with
  | stop => exact ⟨h, rfl⟩
  | _ => rename_i h'; cases h.symm.trans h'

theorem deaf_run {t : ServerService} {es : List Event} (h : s.listener = .finished)
    (hrun : Runs.run ServerService.step s es = some t) :
    t.listener = .finished ∧ t.connections = s.connections := by
  have hkeep : ∀ (u : ServerService) (e : Event) (u' : ServerService),
      u.listener = .finished ∧ u.connections = s.connections → u.step e = some u' →
        u'.listener = .finished ∧ u'.connections = s.connections := by
    intro u e u' hu hstep
    obtain ⟨hfinished, hsame⟩ := deaf_step hu.1 hstep
    exact ⟨hfinished, hsame.trans hu.2⟩
  exact Runs.run_invariant hkeep ⟨h, rfl⟩ hrun

/-- A link handler of the first connection throws: the service is running, nothing is accepted, and
nothing is being handled. -/
theorem thrown_link_ends_loop :
    ∃ t, Runs.run step started [.begin, .accept true,
        .makeHandler (some { inboundHandlers := [0] }), .onNewConnection (.returns true),
        .onLink .throws] = some t ∧
      t.running = true ∧ t.listener = .finished ∧ ¬ t.Listens := by
  refine ⟨{ running := true, listener := .finished }, by decide, rfl, rfl, ?_⟩
  intro h
  rcases h rfl (by decide) with haccepting | hhandling
  · cases haccepting
  · exact hhandling

end Listens

end ServerService

end KeycapRoot.Network
