import Mathlib.Data.List.Perm.Basic
import KeycapRoot.Lib.Runs
import KeycapRoot.Network.DataRouter
import KeycapRoot.Network.ServiceLocator

/-!
# Reconnecting

A service that was located is connected to, its connection is read until it is lost, and then a
restart is scheduled, which connects again. Each step hands over to the next, except that a connect
attempt that fails is only printed; and a `locate` that throws leaves its service behind without an
attempt, which the next `locate` then takes for located. So a located service is never given up,
exactly in the runs in which neither happens (`pursued_iff_handsOver`).
-/

namespace KeycapRoot.Network

/-- The address of a host and the port. -/
structure Endpoint where
  address : Nat
  port : UInt16
  deriving DecidableEq, Repr

/-- A service in client mode, with the number of connect attempts that are in flight and of readers
that are alive. -/
structure ClientService where
  endpoint : Option Endpoint := none
  running : Bool := false
  attempts : Nat := 0
  readers : Nat := 0
  deriving DecidableEq, Repr

namespace ClientService

def connect (s : ClientService) : ClientService := { s with attempts := s.attempts + 1 }

/-- `start(host, port)`. The resolver throws or gives the address of the host. -/
def start (port : UInt16) (resolved : Except String Nat) (s : ClientService) :
    Outcome ClientService Unit :=
  match resolved with
  | .error what => .error (.exception what) s
  | .ok address =>
    .ok () { { s with endpoint := some { address, port } }.connect with running := true }

def restart (s : ClientService) : ClientService := { s.connect with running := true }

/-- The coroutine of `connect` when its attempt succeeds: the new connection begins to read. -/
def handleNewConnection (s : ClientService) : ClientService :=
  { s with attempts := s.attempts - 1, readers := s.readers + 1 }

/-- The coroutine of `connect` when its attempt fails: the error is printed. -/
def connectFails (s : ClientService) : ClientService := { s with attempts := s.attempts - 1 }

end ClientService

/-- A locator with its schedule of restarts, what it has posted, and the types whose `locate` has
returned. -/
structure Reconnector (ι κ : Type) where
  services : AList fun _ : ServiceType => ClientService := ∅
  locatedCallbacks : AList fun _ : ServiceType => ι × κ := ∅
  schedule : List ServiceType := []
  posts : List (ι × κ × ServiceType) := []
  located : List ServiceType := []

namespace Reconnector

variable {ι κ : Type}

/-- `locate(type, host, port, callback)`. -/
def locate (type : ServiceType) (port : UInt16) (callback : Option (ι × κ))
    (resolved : Except String Nat) (l : Reconnector ι κ) : Outcome (Reconnector ι κ) Unit :=
  if type ∈ l.services then .ok () l
  else
    let l := match callback with
      | some c => { l with
          locatedCallbacks := ServiceLocator.tryEmplace l.locatedCallbacks type c }
      | none => l
    match ClientService.start port resolved {} with
    | .ok () service => .ok () { l with services := l.services.insert type service }
    | .error e service => .error e { l with services := l.services.insert type service }

/-- `on_link(router, service, status)`. -/
def onLink (l : Reconnector ι κ) (service : ServiceType) (status : LinkStatus) : Reconnector ι κ :=
  match status with
  | .up =>
    match l.locatedCallbacks.lookup service with
    | some (ioService, callback) =>
      { l with posts := l.posts ++ [(ioService, callback, service)] }
    | none => l
  | _ => { l with schedule := l.schedule ++ [service] }

/-- The callback of a scheduled restart. -/
def restart (l : Reconnector ι κ) (service : ServiceType) : Reconnector ι κ :=
  match l.services.lookup service with
  | some serv => { l with services := l.services.insert service serv.restart }
  | none => l

inductive Event (ι κ : Type)
  | locate (type : ServiceType) (port : UInt16) (callback : Option (ι × κ))
      (resolved : Except String Nat)
  | connectSucceeds (type : ServiceType)
  | connectFails (type : ServiceType)
  | readerEnds (type : ServiceType)
  | restartFires (i : Nat)

def step (l : Reconnector ι κ) : Event ι κ → Option (Reconnector ι κ)
  | .locate type port callback resolved =>
    match l.locate type port callback resolved with
    | .ok () l => some { l with located := l.located ++ [type] }
    | .error _ l => some l
  | .connectSucceeds type =>
    match l.services.lookup type with
    | none => none
    | some service =>
      if 0 < service.attempts then
        some ({ l with
          services := l.services.insert type service.handleNewConnection }.onLink type .up)
      else none
  | .connectFails type =>
    match l.services.lookup type with
    | none => none
    | some service =>
      if 0 < service.attempts then
        some { l with services := l.services.insert type service.connectFails }
      else none
  | .readerEnds type =>
    match l.services.lookup type with
    | none => none
    | some service =>
      if 0 < service.readers then
        some ({ l with
          services := l.services.insert type { service with readers := service.readers - 1 }
          }.onLink type .down)
      else none
  | .restartFires i =>
    match l.schedule[i]? with
    | some type => some ({ l with schedule := l.schedule.eraseIdx i }.restart type)
    | none => none

/-! ## The loop -/

/-- A connect attempt is in flight, a reader is alive, or a restart is scheduled. -/
def Pursued (l : Reconnector ι κ) (type : ServiceType) : Prop :=
  (∃ service, l.services.lookup type = some service ∧
    (0 < service.attempts ∨ 0 < service.readers)) ∨ type ∈ l.schedule

/-- The condition on a step: no connect attempt fails, and no `locate` finds a service that an
earlier one left behind when it threw. -/
def HandsOver (l : Reconnector ι κ) : Event ι κ → Prop
  | .locate type _ _ _ => type ∈ l.services → type ∈ l.located
  | .connectFails _ => False
  | _ => True

/-- How many steps of the loop a service is in. -/
def activities (l : Reconnector ι κ) (type : ServiceType) : Nat :=
  (match l.services.lookup type with
    | some service => service.attempts + service.readers
    | none => 0) + l.schedule.count type

theorem activities_of_lookup {l : Reconnector ι κ} {type : ServiceType} {service : ClientService}
    (h : l.services.lookup type = some service) :
    l.activities type = service.attempts + service.readers + l.schedule.count type := by
  rw [activities, h]

theorem activities_of_not_mem {l : Reconnector ι κ} {type : ServiceType}
    (h : type ∉ l.services) : l.activities type = l.schedule.count type := by
  rw [activities, AList.lookup_eq_none.2 h, Nat.zero_add]

theorem pursued_iff (l : Reconnector ι κ) (type : ServiceType) :
    l.Pursued type ↔ 0 < l.activities type := by
  unfold Pursued
  rw [← List.count_pos_iff]
  cases hlook : l.services.lookup type with
  | none =>
    rw [activities_of_not_mem (AList.lookup_eq_none.1 hlook)]
    simp
  | some service =>
    rw [activities_of_lookup hlook]
    simp only [Option.some.injEq, exists_eq_left']
    omega

/-- A step on one service leaves the others where they are. -/
theorem activities_update (l : Reconnector ι κ) {type type' : ServiceType} (htype : type' ≠ type)
    (service : ClientService) (schedule : List ServiceType)
    (hschedule : schedule.count type' = l.schedule.count type') :
    activities { l with services := l.services.insert type service, schedule } type' =
      l.activities type' := by
  unfold activities
  rw [AList.lookup_insert_ne htype, hschedule]

/-- Located services are in the loop once, and others are not in it. -/
structure Sound (l : Reconnector ι κ) : Prop where
  services : ∀ type ∈ l.located, type ∈ l.services
  activities : ∀ type, l.activities type = if type ∈ l.located then 1 else 0

theorem sound_start : Sound ({} : Reconnector ι κ) where
  services := fun _ h => by cases h
  activities := fun _ => rfl

variable {l l' : Reconnector ι κ}

theorem Sound.pursued (h : Sound l) : ∀ type ∈ l.located, l.Pursued type := by
  intro type htype
  rw [pursued_iff, h.activities, if_pos htype]
  exact Nat.one_pos

/-- What goes from one step of the loop to the next is still in it. -/
theorem Sound.of_same (h : Sound l) (hlocated : l'.located = l.located)
    (hservices : ∀ type ∈ l.services, type ∈ l'.services)
    (hactivities : ∀ type, l'.activities type = l.activities type) : Sound l' := by
  constructor
  · intro type htype
    rw [hlocated] at htype
    exact hservices type (h.services type htype)
  · intro type
    rw [hactivities, hlocated, h.activities]

/-! ## Steps -/

/-- A step of the loop on one service. -/
theorem Sound.update (h : Sound l) {type : ServiceType} {service service' : ClientService}
    (hlook : l.services.lookup type = some service) {schedule : List ServiceType}
    (hothers : ∀ type' ≠ type, schedule.count type' = l.schedule.count type')
    (hsame : service'.attempts + service'.readers + schedule.count type =
      service.attempts + service.readers + l.schedule.count type) :
    Sound { l with services := l.services.insert type service', schedule } := by
  refine h.of_same rfl (fun _ hmem => (AList.mem_insert _).2 (Or.inr hmem)) ?_
  intro type'
  by_cases htype : type' = type
  · subst htype
    rw [activities_of_lookup (AList.lookup_insert _), activities_of_lookup hlook]
    exact hsame
  · exact activities_update l htype service' schedule (hothers type' htype)

theorem count_append_other {schedule : List ServiceType} {type type' : ServiceType}
    (htype : type' ≠ type) : (schedule ++ [type]).count type' = schedule.count type' := by
  rw [List.count_append, List.count_singleton, if_neg (by simpa using htype.symm), Nat.add_zero]

theorem count_append_self (schedule : List ServiceType) (type : ServiceType) :
    (schedule ++ [type]).count type = schedule.count type + 1 := by
  rw [List.count_append, List.count_singleton_self]

/-- A link that comes up does nothing to the loop. -/
theorem Sound.onLink_up (h : Sound l) (type : ServiceType) : Sound (l.onLink type .up) := by
  rw [onLink]
  split
  · exact h.of_same rfl (fun _ hmem => hmem) (fun _ => rfl)
  · exact h

/-- `locate` makes the service, with an attempt in flight unless the resolver throws. -/
theorem locate_cases {type : ServiceType} (hnew : type ∉ l.services) (port : UInt16)
    (callback : Option (ι × κ)) (resolved : Except String Nat) :
    ∃ locatedCallbacks,
      (∃ what, l.locate type port callback resolved = .error (.exception what)
        { l with locatedCallbacks, services := l.services.insert type {} }) ∨
      ∃ address, l.locate type port callback resolved = .ok ()
        { l with
          locatedCallbacks
          services := l.services.insert type
            { endpoint := some { address, port }, running := true, attempts := 1 } } := by
  unfold locate
  rw [if_neg hnew]
  cases resolved with
  | error what =>
    cases callback with
    | none => exact ⟨_, Or.inl ⟨what, rfl⟩⟩
    | some c => exact ⟨_, Or.inl ⟨what, rfl⟩⟩
  | ok address =>
    cases callback with
    | none => exact ⟨_, Or.inr ⟨address, rfl⟩⟩
    | some c => exact ⟨_, Or.inr ⟨address, rfl⟩⟩

/-- A service that no `locate` has made is in no step of the loop. -/
theorem Sound.activities_of_not_mem (h : Sound l) {type : ServiceType} (hnew : type ∉ l.services) :
    l.activities type = 0 := by
  rw [h.activities, if_neg fun hlocated => hnew (h.services type hlocated)]

/-- The resolver throws, and the service stays without an attempt. -/
theorem Sound.locate_throws (h : Sound l) {type : ServiceType} (hnew : type ∉ l.services)
    (locatedCallbacks : AList fun _ : ServiceType => ι × κ) :
    Sound { l with locatedCallbacks, services := l.services.insert type {} } := by
  refine h.of_same rfl (fun _ hmem => (AList.mem_insert _).2 (Or.inr hmem)) ?_
  intro type'
  by_cases htype : type' = type
  · subst htype
    have hzero := h.activities_of_not_mem hnew
    have hcount := Reconnector.activities_of_not_mem hnew
    rw [activities_of_lookup (AList.lookup_insert _), hzero]
    change 0 + 0 + l.schedule.count type' = 0
    omega
  · exact activities_update l htype _ _ rfl

theorem Sound.locate_returns (h : Sound l) {type : ServiceType} (hnew : type ∉ l.services)
    (locatedCallbacks : AList fun _ : ServiceType => ι × κ) {service : ClientService}
    (hservice : service.attempts + service.readers = 1) :
    Sound { l with
      locatedCallbacks
      services := l.services.insert type service
      located := l.located ++ [type] } := by
  constructor
  · intro type' hlocated
    rcases List.mem_append.1 hlocated with hold | hsame
    · exact (AList.mem_insert _).2 (Or.inr (h.services type' hold))
    · exact (AList.mem_insert _).2 (Or.inl (List.mem_singleton.1 hsame))
  · intro type'
    by_cases htype : type' = type
    · subst htype
      have hzero := h.activities_of_not_mem hnew
      have hcount := Reconnector.activities_of_not_mem hnew
      rw [activities_of_lookup (AList.lookup_insert _),
        if_pos (List.mem_append_right _ (List.mem_singleton_self _))]
      change service.attempts + service.readers + l.schedule.count type' = 1
      omega
    · refine (activities_update l htype service _ rfl).trans ?_
      rw [h.activities]
      exact if_congr (by simp [htype]) rfl rfl

/-- A `locate` of a service that is located already. -/
theorem Sound.locate_again (h : Sound l) {type : ServiceType} (hlocated : type ∈ l.located) :
    Sound { l with located := l.located ++ [type] } := by
  have hmem (type' : ServiceType) : type' ∈ l.located ++ [type] ↔ type' ∈ l.located := by
    rw [List.mem_append, List.mem_singleton]
    constructor
    · rintro (hold | rfl)
      · exact hold
      · exact hlocated
    · exact Or.inl
  constructor
  · intro type' htype
    exact h.services type' ((hmem type').1 htype)
  · intro type'
    exact (h.activities type').trans (if_congr (hmem type').symm rfl rfl)

/-! ## Inversion of a step -/

/-- What a step can do, with the guard under which it does so. -/
inductive Steps (l : Reconnector ι κ) : Event ι κ → Reconnector ι κ → Prop
  | locateAgain {type : ServiceType} (port : UInt16) (callback : Option (ι × κ))
      (resolved : Except String Nat) (hmem : type ∈ l.services) :
      Steps l (.locate type port callback resolved) { l with located := l.located ++ [type] }
  | locateThrows {type : ServiceType} (port : UInt16) (callback : Option (ι × κ))
      (resolved : Except String Nat) (hnew : type ∉ l.services)
      (locatedCallbacks : AList fun _ : ServiceType => ι × κ) :
      Steps l (.locate type port callback resolved)
        { l with locatedCallbacks, services := l.services.insert type {} }
  | locateReturns {type : ServiceType} (port : UInt16) (callback : Option (ι × κ))
      (resolved : Except String Nat) (hnew : type ∉ l.services)
      (locatedCallbacks : AList fun _ : ServiceType => ι × κ) (address : Nat) :
      Steps l (.locate type port callback resolved)
        { l with
          locatedCallbacks
          services := l.services.insert type
            { endpoint := some { address, port }, running := true, attempts := 1 }
          located := l.located ++ [type] }
  | connectSucceeds {type : ServiceType} {service : ClientService}
      (hlook : l.services.lookup type = some service) (hflight : 0 < service.attempts) :
      Steps l (.connectSucceeds type)
        ({ l with services := l.services.insert type service.handleNewConnection }.onLink type .up)
  | connectFails {type : ServiceType} {service : ClientService}
      (hlook : l.services.lookup type = some service) (hflight : 0 < service.attempts) :
      Steps l (.connectFails type)
        { l with services := l.services.insert type service.connectFails }
  | readerEnds {type : ServiceType} {service : ClientService}
      (hlook : l.services.lookup type = some service) (halive : 0 < service.readers) :
      Steps l (.readerEnds type)
        ({ l with
          services := l.services.insert type { service with readers := service.readers - 1 }
          }.onLink type .down)
  | restartFires {i : Nat} {type : ServiceType} (hscheduled : l.schedule[i]? = some type) :
      Steps l (.restartFires i) ({ l with schedule := l.schedule.eraseIdx i }.restart type)

theorem steps_of_step {e : Event ι κ} (hstep : step l e = some l') : Steps l e l' := by
  cases e with
  | locate type port callback resolved =>
    rw [step] at hstep
    by_cases hmem : type ∈ l.services
    · unfold Reconnector.locate at hstep
      rw [if_pos hmem] at hstep
      cases hstep
      exact .locateAgain port callback resolved hmem
    · obtain ⟨callbacks, ⟨what, hlocate⟩ | ⟨address, hlocate⟩⟩ :=
        locate_cases hmem port callback resolved
      · rw [hlocate] at hstep
        cases hstep
        exact .locateThrows port callback resolved hmem callbacks
      · rw [hlocate] at hstep
        cases hstep
        exact .locateReturns port callback resolved hmem callbacks address
  | connectSucceeds type =>
    simp only [step] at hstep
    split at hstep
    · cases hstep
    · next service hlook =>
      split at hstep
      · next hflight =>
        cases hstep
        exact .connectSucceeds hlook hflight
      · cases hstep
  | connectFails type =>
    simp only [step] at hstep
    split at hstep
    · cases hstep
    · next service hlook =>
      split at hstep
      · next hflight =>
        cases hstep
        exact .connectFails hlook hflight
      · cases hstep
  | readerEnds type =>
    simp only [step] at hstep
    split at hstep
    · cases hstep
    · next service hlook =>
      split at hstep
      · next halive =>
        cases hstep
        exact .readerEnds hlook halive
      · cases hstep
  | restartFires i =>
    simp only [step] at hstep
    split at hstep
    · next type hscheduled =>
      cases hstep
      exact .restartFires hscheduled
    · cases hstep

/-! ## Whole runs -/

theorem count_eraseIdx {schedule : List ServiceType} {i : Nat} {type : ServiceType}
    (h : schedule[i]? = some type) (type' : ServiceType) :
    (schedule.eraseIdx i).count type' + (if type' = type then 1 else 0) =
      schedule.count type' := by
  obtain ⟨hi, rfl⟩ := List.getElem?_eq_some_iff.1 h
  have hperm := (List.getElem_cons_eraseIdx_perm hi).count_eq type'
  rw [List.count_cons] at hperm
  rw [← hperm]
  congr 1
  exact if_congr (eq_comm.trans beq_iff_eq.symm) rfl rfl

theorem Sound.step (h : Sound l) {e : Event ι κ} (hok : l.HandsOver e)
    (hstep : Reconnector.step l e = some l') : Sound l' := by
  cases steps_of_step hstep with
  | locateAgain port callback resolved hmem => exact h.locate_again (hok hmem)
  | locateThrows port callback resolved hnew locatedCallbacks => exact h.locate_throws hnew _
  | locateReturns port callback resolved hnew locatedCallbacks address =>
    exact h.locate_returns hnew _ rfl
  | connectSucceeds hlook hflight =>
    refine Sound.onLink_up (h.update hlook (fun _ _ => rfl) ?_) _
    simp only [ClientService.handleNewConnection]
    omega
  | connectFails hlook hflight => exact hok.elim
  | readerEnds hlook halive =>
    refine h.update hlook (fun _ htype => count_append_other htype) ?_
    rw [count_append_self]
    simp only
    omega
  | @restartFires i type hscheduled =>
    have hcount := count_eraseIdx hscheduled
    have hmem : type ∈ l.services := by
      by_contra hnew
      have hzero := h.activities_of_not_mem hnew
      rw [Reconnector.activities_of_not_mem hnew, List.count_eq_zero] at hzero
      exact hzero (List.mem_of_getElem? hscheduled)
    obtain ⟨service, hlook⟩ := Option.isSome_iff_exists.1 (AList.lookup_isSome.2 hmem)
    rw [restart, hlook]
    refine h.update hlook ?_ ?_
    · intro type' htype
      have hother := hcount type'
      rwa [if_neg htype, Nat.add_zero] at hother
    · have hself := hcount type
      rw [if_pos rfl] at hself
      simp only [ClientService.restart, ClientService.connect]
      omega

/-- A step that does not hand over gives a located service up. -/
theorem Sound.not_pursued_step (h : Sound l) {e : Event ι κ} (hok : ¬ l.HandsOver e)
    (hstep : Reconnector.step l e = some l') : ¬ ∀ type ∈ l'.located, l'.Pursued type := by
  intro hall
  cases steps_of_step hstep with
  | @locateAgain type port callback resolved hmem =>
    have hunlocated : type ∉ l.located := fun hlocated => hok fun _ => hlocated
    have hpursued := hall type (List.mem_append_right _ (List.mem_singleton_self _))
    rw [pursued_iff] at hpursued
    change 0 < l.activities type at hpursued
    rw [h.activities, if_neg hunlocated] at hpursued
    exact Nat.lt_irrefl 0 hpursued
  | locateThrows port callback resolved hnew locatedCallbacks =>
    exact hok fun hmem => absurd hmem hnew
  | locateReturns port callback resolved hnew locatedCallbacks address =>
    exact hok fun hmem => absurd hmem hnew
  | @connectFails type service hlook hflight =>
    -- the only thing that the service was in was this attempt
    have hone := h.activities type
    rw [activities_of_lookup hlook] at hone
    have hlocated : type ∈ l.located := by
      by_contra hunlocated
      rw [if_neg hunlocated] at hone
      omega
    rw [if_pos hlocated] at hone
    have hpursued := hall type hlocated
    rw [pursued_iff, activities_of_lookup (AList.lookup_insert _)] at hpursued
    simp only [ClientService.connectFails] at hpursued
    omega
  | connectSucceeds hlook hflight => exact hok trivial
  | readerEnds hlook halive => exact hok trivial
  | restartFires hscheduled => exact hok trivial

end Reconnector

open Reconnector in
/-- **Reconnecting.** In every state that a run reaches each located service has a connect attempt in
flight, a reader that is alive or a restart scheduled, if and only if no connect attempt fails and no
`locate` returns for a service that an earlier one left behind when it threw. -/
theorem pursued_iff_handsOver {ι κ : Type} {es : List (Reconnector.Event ι κ)}
    {t : Reconnector ι κ} (hrun : Runs.run step {} es = some t) :
    (∀ before u, before <+: es → Runs.run step ({} : Reconnector ι κ) before = some u →
        ∀ type ∈ u.located, u.Pursued type) ↔
      Runs.Along step HandsOver {} es :=
  Runs.always_iff_along (P := fun l => ∀ type ∈ l.located, l.Pursued type)
    (fun _ h => Sound.pursued h) (fun _ _ _ h hok hstep => Sound.step h hok hstep)
    (fun _ _ _ h hok hstep => Sound.not_pursued_step h hok hstep) sound_start hrun

/-- A connection is made, lost and made again. -/
def lostOnce : List (Reconnector.Event Unit Unit) :=
  [.locate 1 8080 none (.ok 7), .connectSucceeds 1, .readerEnds 1, .restartFires 0,
    .connectSucceeds 1]

theorem pursued_iff_handsOver_sample :
    ∃ t, Runs.run Reconnector.step {} lostOnce = some t ∧ t.located = [1] ∧ t.Pursued 1 := by
  have hend : (Runs.run Reconnector.step {} lostOnce).map (fun t => t.located) = some [1] := by
    decide
  obtain ⟨t, hrun, hlocated⟩ := Option.map_eq_some_iff.1 hend
  refine ⟨t, hrun, hlocated, ?_⟩
  refine (pursued_iff_handsOver hrun).2 ?_ _ t List.prefix_rfl hrun 1 (by rw [hlocated]; decide)
  refine ⟨fun hmem => absurd hmem (AList.notMem_empty _), fun _ _ => ⟨trivial, fun _ _ => ?_⟩⟩
  exact ⟨trivial, fun _ _ => ⟨trivial, fun _ _ => ⟨trivial, fun _ _ => trivial⟩⟩⟩

/-- The first connect attempt fails, and the service is given up. -/
theorem refused_not_pursued :
    ∃ t, Runs.run Reconnector.step ({} : Reconnector Unit Unit)
        [.locate 1 8080 none (.ok 7), .connectFails 1] = some t ∧
      t.located = [1] ∧ ¬ t.Pursued 1 := by
  have hend : (Runs.run Reconnector.step ({} : Reconnector Unit Unit)
      [.locate 1 8080 none (.ok 7), .connectFails 1]).map
      (fun t => (t.located, t.activities 1)) = some ([1], 0) := by decide
  obtain ⟨t, hrun, hpair⟩ := Option.map_eq_some_iff.1 hend
  obtain ⟨hlocated, hzero⟩ := Prod.mk.inj hpair
  refine ⟨t, hrun, hlocated, ?_⟩
  rw [Reconnector.pursued_iff, hzero]
  exact Nat.lt_irrefl 0

end KeycapRoot.Network
