import KeycapRoot.Network.PendingRequests

/-!
# Who may answer

All services of a locator share one table of callbacks, and `on_data` does not look at the service
that a chunk comes from. So the callback of a request is posted for any chunk that carries the
request's id; and callbacks are posted for their own services only, exactly in the runs where the
answers to pending requests come from the services that were asked (`isolated_iff_ownAnswers`).

A callback carries the type it was registered for, and a post the service of its `on_data` call.
-/

namespace KeycapRoot.Network

open KeycapRoot.Utility RegisteredMessage

namespace ServiceLocator

variable {ι κ : Type}

/-- A locator with all that it has posted. -/
structure Deliveries (ι κ : Type) where
  locator : ServiceLocator ι (ServiceType × κ)
  posts : List (ServiceType × Post ι (ServiceType × κ)) := []

namespace Deliveries

def start (services : AList fun _ : ServiceType => Service) : Deliveries ι κ where
  locator := { services }

section Step

variable (checksum : Checksum)

def step (s : Deliveries ι κ) : Event ι κ → Option (Deliveries ι κ)
  | .sendRegistered type message ioService callback =>
    some { s with
      locator := (s.locator.sendRegistered checksum type message ioService (type, callback)).1 }
  | .onData beyond service data =>
    match s.locator.onData beyond checksum service data with
    | .ok (_, posts) locator =>
      some { s with locator, posts := s.posts ++ posts.map fun post => (service, post) }
    | .error _ locator => some { s with locator }

/-- Every callback was posted by a call with the service it was registered for. -/
def Isolated (s : Deliveries ι κ) : Prop := ∀ p ∈ s.posts, p.2.callback.1 = p.1

/-- An answer from another service than the one that was asked posts nothing and leaves the table
as it is. -/
def Undisturbed (s : Deliveries ι κ) : Event ι κ → Prop
  | .sendRegistered .. => True
  | .onData beyond service data =>
    IsAnswer checksum data → ∀ container,
      s.locator.registeredCallbacks.lookup (parse data).sender = some container →
      container.callback.1 ≠ service →
      ∃ ret, s.locator.onData beyond checksum service data = .ok (ret, []) s.locator

/-- The condition on a step: the answer to a pending request comes from the service that was
asked. -/
def OwnAnswer (s : Deliveries ι κ) : Event ι κ → Prop
  | .sendRegistered .. => True
  | .onData _ service data =>
    IsAnswer checksum data → ∀ container,
      s.locator.registeredCallbacks.lookup (parse data).sender = some container →
      container.type = service

end Step

/-- The table says for each callback which type it was registered for. -/
structure Labelled (s : Deliveries ι κ) : Prop where
  isolated : Isolated s
  labels : ∀ id container, s.locator.registeredCallbacks.lookup id = some container →
    container.callback.1 = container.type

variable {checksum : Checksum} {s s' : Deliveries ι κ}

theorem labelled_start (services : AList fun _ : ServiceType => Service) :
    Labelled (start services : Deliveries ι κ) where
  isolated := fun _ h => by cases h
  labels := fun _ _ h => by cases h

theorem Labelled.sendRegistered (h : Labelled s) {type : ServiceType} {message : MemoryStream}
    {ioService : ι} {callback : κ}
    (hstep : step checksum s (.sendRegistered type message ioService callback) = some s') :
    Labelled s' := by
  cases hstep
  refine ⟨h.isolated, ?_⟩
  intro id container hlook
  rcases lookup_tryEmplace_cases hlook with ⟨-, -, rfl⟩ | hold
  · rfl
  · exact h.labels id container hold

/-- What a chunk does: an answer to a pending request is posted for the service that sent it. -/
theorem onData_step_cases {beyond : Beyond} {service : ServiceType} {data : List UInt8}
    (hstep : step checksum s (.onData beyond service data) = some s') :
    (IsAnswer checksum data ∧ ∃ container,
      s.locator.registeredCallbacks.lookup (parse data).sender = some container ∧
        s' = { locator := s.locator.forget (parse data).sender,
               posts := s.posts ++ [(service, postOf container data)] }) ∨ s' = s := by
  rw [step] at hstep
  rcases onData_cases beyond service checksum data s.locator with
    ⟨hanswer, container, hlook, hon⟩ | ⟨ret, hon⟩ | ⟨e, hon⟩
  · rw [hon] at hstep
    cases hstep
    exact Or.inl ⟨hanswer, container, hlook, rfl⟩
  · rw [hon] at hstep
    cases hstep
    rw [List.map_nil, List.append_nil]
    exact Or.inr rfl
  · rw [hon] at hstep
    cases hstep
    exact Or.inr rfl

theorem Labelled.onData (h : Labelled s) {beyond : Beyond} {service : ServiceType}
    {data : List UInt8} (hown : OwnAnswer checksum s (.onData beyond service data))
    (hstep : step checksum s (.onData beyond service data) = some s') : Labelled s' := by
  rcases onData_step_cases hstep with ⟨hanswer, container, hlook, rfl⟩ | rfl
  · constructor
    · intro p hp
      rcases List.mem_append.1 hp with hold | hnew
      · exact h.isolated p hold
      · cases List.mem_singleton.1 hnew
        exact (h.labels _ container hlook).trans (hown hanswer container hlook)
    · intro id other hother
      exact h.labels id other (lookup_of_forget hother).2
  · exact h

theorem Labelled.step (h : Labelled s) {e : Event ι κ} (hown : OwnAnswer checksum s e)
    (hstep : Deliveries.step checksum s e = some s') : Labelled s' := by
  cases e with
  | sendRegistered type message ioService callback => exact h.sendRegistered hstep
  | onData beyond service data => exact h.onData hown hstep

/-- The answer of a stranger is posted. -/
theorem Labelled.not_isolated_step (h : Labelled s) {e : Event ι κ}
    (hown : ¬ OwnAnswer checksum s e) (hstep : Deliveries.step checksum s e = some s') :
    ¬ Isolated s' := by
  cases e with
  | sendRegistered type message ioService callback => exact absurd trivial hown
  | onData beyond service data =>
    intro hisolated
    refine hown ?_
    intro hanswer container hlook
    have hon := onData_of_isAnswer beyond service hanswer s.locator
    rw [hlook] at hon
    rw [Deliveries.step, hon] at hstep
    cases hstep
    have hpost := hisolated (service, postOf container data)
      (List.mem_append_right _ (List.mem_singleton_self _))
    exact (h.labels _ container hlook).symm.trans hpost

/-- Where the condition holds there is no such answer. -/
theorem Labelled.undisturbed (h : Labelled s) {e : Event ι κ} (hown : OwnAnswer checksum s e) :
    Undisturbed checksum s e := by
  cases e with
  | sendRegistered type message ioService callback => trivial
  | onData beyond service data =>
    intro hanswer container hlook hother
    exact absurd ((h.labels _ container hlook).trans (hown hanswer container hlook)) hother

end Deliveries

open Deliveries in
/-- **Isolation.** In a run every callback is posted by a chunk from the service it was registered
for, and no answer from another service posts anything or changes the table, if and only if every
answer to a pending request comes from the service that was asked. -/
theorem isolated_iff_ownAnswers (checksum : Checksum)
    (services : AList fun _ : ServiceType => Service) {es : List (Event ι κ)} {t : Deliveries ι κ}
    (hrun : Runs.run (step checksum) (start services) es = some t) :
    ((∀ before u, before <+: es → Runs.run (step checksum) (start services) before = some u →
        Isolated u) ∧
      Runs.Along (step checksum) (Undisturbed checksum) (start services) es) ↔
      Runs.Along (step checksum) (OwnAnswer checksum) (start services) es := by
  have hiff := Runs.always_iff_along (P := Isolated) (fun _ h => Labelled.isolated h)
    (fun _ _ _ h hown hstep => Labelled.step h hown hstep)
    (fun _ _ _ h hown hstep => Labelled.not_isolated_step h hown hstep)
    (labelled_start services) hrun
  refine ⟨fun h => hiff.1 h.1, fun hown => ⟨hiff.2 hown, ?_⟩⟩
  exact Runs.along_imp (fun _ _ _ h hown hstep => Labelled.step h hown hstep)
    (fun _ _ h hown => Labelled.undisturbed h hown) (labelled_start services) hown

/-- Services of types 1 and 2 with live connections. -/
def twoServices : AList fun _ : ServiceType => Service :=
  (AList.insert 1 { connection := some 0 } ∅).insert 2 { connection := some 1 }

/-- A request to a service of type 1, and an answer to it from the given service. -/
def answeredBy (service : ServiceType) : List (Event Unit Unit) :=
  [.sendRegistered 1 (.ofBytes [5]) () (),
    .onData (fun _ => none) service (ServiceConnection.sendAnswer crc32Ieee 0 (.ofBytes [3, 4]))]

theorem isolated_iff_ownAnswers_sample :
    ∃ t, Runs.run (Deliveries.step crc32Ieee) (Deliveries.start twoServices) (answeredBy 1) =
        some t ∧
      Deliveries.Isolated t ∧ t.posts.length = 1 := by
  have hposts : (Runs.run (Deliveries.step crc32Ieee) (Deliveries.start twoServices)
      (answeredBy 1)).map (fun t => t.posts.length) = some 1 := by decide +kernel
  obtain ⟨t, hrun, hone⟩ := Option.map_eq_some_iff.1 hposts
  refine ⟨t, hrun,
    ((isolated_iff_ownAnswers crc32Ieee twoServices hrun).2 ?_).1 _ t List.prefix_rfl hrun, hone⟩
  refine ⟨trivial, ?_⟩
  intro s hs
  refine ⟨?_, fun _ _ => trivial⟩
  intro hanswer container hlook
  have htype : (s.locator.registeredCallbacks.lookup
      (parse (ServiceConnection.sendAnswer crc32Ieee 0 (.ofBytes [3, 4]))).sender).map
      (fun container => container.type) = some 1 := by
    cases hs
    decide +kernel
  rw [hlook] at htype
  exact Option.some.inj htype

/-- The answer comes from the service of type 2, and the callback is posted as if it came from the
one of type 1. -/
theorem stranger_answers :
    ∃ t, Runs.run (Deliveries.step crc32Ieee) (Deliveries.start twoServices) (answeredBy 2) =
        some t ∧
      ¬ Deliveries.Isolated t ∧ t.posts.map (fun p => (p.1, p.2.callback.1, p.2.sender)) =
        [(2, 1, 1)] := by
  have hposts : (Runs.run (Deliveries.step crc32Ieee) (Deliveries.start twoServices)
      (answeredBy 2)).map (fun t => t.posts.map fun p => (p.1, p.2.callback.1, p.2.sender)) =
      some [(2, 1, 1)] := by decide +kernel
  obtain ⟨t, hrun, hone⟩ := Option.map_eq_some_iff.1 hposts
  refine ⟨t, hrun, ?_, hone⟩
  intro hisolated
  obtain ⟨p, hp, hpair⟩ := List.mem_map.1 (hone ▸ List.mem_singleton_self _)
  have hsame := hisolated p hp
  rw [Prod.mk.injEq, Prod.mk.injEq] at hpair
  rw [hpair.1, hpair.2.1] at hsame
  exact absurd hsame (by decide)

end ServiceLocator

end KeycapRoot.Network
