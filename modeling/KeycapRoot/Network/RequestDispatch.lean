import KeycapRoot.Lib.Runs
import KeycapRoot.Network.ServiceLocator

/-!
# Where requests go

`send_registered` files the callback of a request first, and only then is it seen where the frame
goes: to the connection of the service, if there is one, also when its socket has been closed and
nothing will be written any more, and to nowhere if there is none. So the table holds requests that
were handed to an open connection, exactly in the runs where every service that is sent a request
has one then (`accounted_iff_reachable`).
-/

namespace KeycapRoot.Network

open KeycapRoot.Utility RegisteredMessage

namespace ServiceLocator

variable {ι κ : Type}

/-- The messages that the locator holds to send them once their service is located. `send_to_` drops
what it cannot send. -/
def held (_ : ServiceLocator ι κ) : List (ServiceType × List UInt8) := []

/-- The connection is destroyed, and the weak pointer to it leads nowhere. -/
def expire (l : ServiceLocator ι κ) (type : ServiceType) (conn : Nat) : ServiceLocator ι κ :=
  if l.services.lookup type = some { connection := some conn } then
    { l with services := l.services.insert type {} }
  else l

/-- A connection of a service. -/
structure Link where
  service : ServiceType
  socketOpen : Bool := true
  deriving DecidableEq, Repr

/-- What becomes of what is sent: the connection it is handed to, as it is now, and the bytes. -/
def handedTo (links : List Link) : Option (Nat × List UInt8) → Option (Link × List UInt8)
  | some (conn, frame) => links[conn]?.map fun link => (link, frame)
  | none => none

/-- A call of `send_registered`, with the connection that its frame was handed to, as it was at that
moment. -/
structure Request where
  id : UInt64
  type : ServiceType
  handed : Option (Link × List UInt8)
  deriving DecidableEq, Repr

/-- The frame was handed to a connection of its service, and the socket was open then. -/
def Request.Handed (request : Request) : Prop :=
  ∃ link frame, request.handed = some (link, frame) ∧ link.service = request.type ∧
    link.socketOpen = true

/-- A locator with all connections that were made for it and all requests. A callback carries the
place of its request. -/
structure Dispatch (ι κ : Type) where
  locator : ServiceLocator ι (Nat × κ) := {}
  links : List Link := []
  requests : List Request := []

namespace Dispatch

inductive Event (ι κ : Type)
  | locate (type : ServiceType)
  | connectionUp (type : ServiceType)
  | socketCloses (conn : Nat)
  | connectionExpires (conn : Nat)
  | sendRegistered (type : ServiceType) (message : MemoryStream) (ioService : ι) (callback : κ)
  | onData (beyond : Beyond) (service : ServiceType) (data : List UInt8)

section Step

variable (checksum : Checksum)

def sendRegistered (s : Dispatch ι κ) (type : ServiceType) (message : MemoryStream) (ioService : ι)
    (callback : κ) : Dispatch ι κ :=
  let sent := s.locator.sendRegistered checksum type message ioService (s.requests.length, callback)
  let request : Request := {
    id := s.locator.registeredCallbackCounter
    type
    handed := handedTo s.links sent.2 }
  { s with locator := sent.1, requests := s.requests ++ [request] }

/-- One event. The coroutines of a connection keep it alive until its socket is closed. -/
def step (s : Dispatch ι κ) : Event ι κ → Option (Dispatch ι κ)
  | .locate type => some { s with locator := s.locator.locate type }
  | .connectionUp type =>
    if type ∈ s.locator.services then
      some { s with
        locator := s.locator.makeHandler type s.links.length
        links := s.links ++ [{ service := type }] }
    else none
  | .socketCloses conn =>
    s.links[conn]?.map fun link =>
      { s with links := s.links.set conn { link with socketOpen := false } }
  | .connectionExpires conn =>
    match s.links[conn]? with
    | some { service, socketOpen := false } =>
      some { s with locator := s.locator.expire service conn }
    | _ => none
  | .sendRegistered type message ioService callback =>
    some (s.sendRegistered checksum type message ioService callback)
  | .onData beyond service data =>
    match s.locator.onData beyond checksum service data with
    | .ok _ locator => some { s with locator }
    | .error _ locator => some { s with locator }

end Step

/-- Each entry belongs to a request that was handed to an open connection, or that is held. -/
def Accounted (s : Dispatch ι κ) : Prop :=
  ∀ id container, s.locator.registeredCallbacks.lookup id = some container →
    ∃ request, s.requests[container.callback.1]? = some request ∧ request.id = id ∧
      (request.Handed ∨ ∃ frame, (request.type, frame) ∈ s.locator.held)

/-- The service has a connection with an open socket. -/
def Reachable (s : Dispatch ι κ) (type : ServiceType) : Prop :=
  ∃ conn link, s.locator.services.lookup type = some { connection := some conn } ∧
    s.links[conn]? = some link ∧ link.socketOpen = true

/-- The condition on a step: a request that makes an entry is sent to a service that has a connection
with an open socket. -/
def SentToReachable (s : Dispatch ι κ) : Event ι κ → Prop
  | .sendRegistered type _ _ _ =>
    s.locator.registeredCallbackCounter ∈ s.locator.registeredCallbacks ∨ s.Reachable type
  | _ => True

/-! ## Invariant -/

structure Sound (s : Dispatch ι κ) : Prop where
  accounted : Accounted s
  links : ∀ type conn, s.locator.services.lookup type = some { connection := some conn } →
    ∃ link, s.links[conn]? = some link ∧ link.service = type

theorem sound_start : Sound ({} : Dispatch ι κ) where
  accounted := fun _ _ h => by cases h
  links := fun _ _ h => by cases h

variable {checksum : Checksum} {s s' : Dispatch ι κ}

/-- What leaves the requests as they are and adds nothing to the table. -/
theorem Accounted.of_subset (h : Accounted s) (hrequests : s'.requests = s.requests)
    (htable : ∀ id container, s'.locator.registeredCallbacks.lookup id = some container →
      s.locator.registeredCallbacks.lookup id = some container) : Accounted s' := by
  intro id container hlook
  rw [hrequests]
  exact h id container (htable id container hlook)

theorem Sound.locate (h : Sound s) (type : ServiceType) :
    Sound { s with locator := s.locator.locate type } := by
  refine ⟨h.accounted.of_subset rfl fun _ _ hlook => hlook, ?_⟩
  intro type' conn hlook
  rcases lookup_tryEmplace_cases hlook with ⟨-, -, hnone⟩ | hold
  · cases hnone
  · exact h.links type' conn hold

theorem Sound.connectionUp (h : Sound s) (type : ServiceType) :
    Sound { s with
      locator := s.locator.makeHandler type s.links.length
      links := s.links ++ [{ service := type }] } := by
  refine ⟨h.accounted.of_subset rfl fun _ _ hlook => hlook, ?_⟩
  intro type' conn hlook
  rcases lookup_insert_cases hlook with ⟨rfl, hnew⟩ | ⟨-, hold⟩
  · cases hnew
    exact ⟨_, List.getElem?_concat_length, rfl⟩
  · obtain ⟨link, hlink, hservice⟩ := h.links type' conn hold
    have hlt : conn < s.links.length := (List.getElem?_eq_some_iff.1 hlink).1
    refine ⟨link, ?_, hservice⟩
    rw [List.getElem?_append_left hlt]
    exact hlink

theorem Sound.socketCloses (h : Sound s) {conn : Nat} {link : Link}
    (hlink : s.links[conn]? = some link) :
    Sound { s with links := s.links.set conn { link with socketOpen := false } } := by
  refine ⟨h.accounted.of_subset rfl fun _ _ hlook => hlook, ?_⟩
  intro type conn' hlook
  obtain ⟨link', hlink', hservice⟩ := h.links type conn' hlook
  by_cases hconn : conn = conn'
  · subst hconn
    cases hlink.symm.trans hlink'
    exact ⟨_, List.getElem?_set_self (List.getElem?_eq_some_iff.1 hlink).1, hservice⟩
  · refine ⟨link', ?_, hservice⟩
    rw [List.getElem?_set_ne hconn]
    exact hlink'

theorem Sound.expire (h : Sound s) (type : ServiceType) (conn : Nat) :
    Sound { s with locator := s.locator.expire type conn } := by
  unfold ServiceLocator.expire
  split
  · refine ⟨h.accounted.of_subset rfl fun _ _ hlook => hlook, ?_⟩
    intro type' conn' hlook
    rcases lookup_insert_cases hlook with ⟨-, hnone⟩ | ⟨-, hold⟩
    · cases hnone
    · exact h.links type' conn' hold
  · exact h

/-- A chunk only takes entries out of the table. -/
theorem Sound.onData (h : Sound s) {beyond : Beyond} {service : ServiceType} {data : List UInt8}
    (hstep : step checksum s (.onData beyond service data) = some s') : Sound s' := by
  rw [step] at hstep
  rcases onData_cases beyond service checksum data s.locator with
    ⟨-, container, hlook, hon⟩ | ⟨ret, hon⟩ | ⟨e, hon⟩
  · rw [hon] at hstep
    cases hstep
    exact ⟨h.accounted.of_subset rfl fun _ _ hother => (lookup_of_forget hother).2, h.links⟩
  · rw [hon] at hstep
    cases hstep
    exact h
  · rw [hon] at hstep
    cases hstep
    exact h

/-- Earlier requests keep their places. -/
theorem getElem?_requests {request : Request} {n : Nat} (h : s.requests[n]? = some request)
    (more : List Request) : (s.requests ++ more)[n]? = some request := by
  rw [List.getElem?_append_left (List.getElem?_eq_some_iff.1 h).1]
  exact h

theorem Sound.handed (h : Sound s) {type : ServiceType} (hreachable : s.Reachable type)
    (message : MemoryStream) (ioService : ι) (callback : κ) :
    ∃ link frame, handedTo s.links (s.locator.sendRegistered checksum type message ioService
        (s.requests.length, callback)).2 = some (link, frame) ∧
      link.service = type ∧ link.socketOpen = true := by
  obtain ⟨conn, link, hlook, hlink, hopen⟩ := hreachable
  obtain ⟨link', hlink', hservice⟩ := h.links type conn hlook
  cases hlink.symm.trans hlink'
  obtain ⟨frame, hsent⟩ := exists_sent_of_live checksum hlook message ioService
    (s.requests.length, callback)
  refine ⟨link, frame, ?_, hservice, hopen⟩
  rw [hsent, handedTo, hlink, Option.map_some]

theorem Sound.sendRegistered (h : Sound s) {type : ServiceType} {message : MemoryStream}
    {ioService : ι} {callback : κ}
    (hok : s.SentToReachable (.sendRegistered type message ioService callback)) :
    Sound (s.sendRegistered checksum type message ioService callback) := by
  refine ⟨?_, h.links⟩
  intro id container hlook
  rcases lookup_tryEmplace_cases hlook with ⟨hfree, rfl, rfl⟩ | hold
  · have hreachable := hok.resolve_left hfree
    refine ⟨_, List.getElem?_concat_length, rfl, Or.inl ?_⟩
    exact h.handed hreachable message ioService callback
  · -- also when the counter has gone round to a number in use: its entry stays
    obtain ⟨request, hrequest, hrest⟩ := h.accounted id container hold
    exact ⟨request, getElem?_requests hrequest _, hrest⟩

theorem Sound.step (h : Sound s) {e : Event ι κ} (hok : s.SentToReachable e)
    (hstep : Dispatch.step checksum s e = some s') : Sound s' := by
  cases e with
  | locate type =>
    cases hstep
    exact h.locate type
  | connectionUp type =>
    rw [Dispatch.step] at hstep
    split at hstep
    · cases hstep
      exact h.connectionUp type
    · cases hstep
  | socketCloses conn =>
    rw [Dispatch.step, Option.map_eq_some_iff] at hstep
    obtain ⟨link, hlink, rfl⟩ := hstep
    exact h.socketCloses hlink
  | connectionExpires conn =>
    rw [Dispatch.step] at hstep
    split at hstep
    · cases hstep
      exact h.expire _ conn
    · cases hstep
  | sendRegistered type message ioService callback =>
    cases hstep
    exact h.sendRegistered hok
  | onData beyond service data => exact h.onData hstep

theorem handedTo_eq_some {links : List Link} {sent : Option (Nat × List UInt8)} {link : Link}
    {frame : List UInt8} (h : handedTo links sent = some (link, frame)) :
    ∃ conn, sent = some (conn, frame) ∧ links[conn]? = some link := by
  unfold handedTo at h
  split at h
  · next conn bytes =>
    obtain ⟨link', hlink, hpair⟩ := Option.map_eq_some_iff.1 h
    cases hpair
    exact ⟨conn, rfl, hlink⟩
  · cases h

/-- A request to a service that cannot be reached leaves an entry behind. -/
theorem not_accounted_step {e : Event ι κ} (hok : ¬ s.SentToReachable e)
    (hstep : Dispatch.step checksum s e = some s') : ¬ Accounted s' := by
  cases e with
  | sendRegistered type message ioService callback =>
    rw [SentToReachable, not_or] at hok
    obtain ⟨hfree, hunreachable⟩ := hok
    cases hstep
    intro haccounted
    have hlook : (s.sendRegistered checksum type message ioService
        callback).locator.registeredCallbacks.lookup s.locator.registeredCallbackCounter =
        some { type, ioService, callback := (s.requests.length, callback) } := by
      change (tryEmplace s.locator.registeredCallbacks _ _).lookup _ = _
      rw [tryEmplace, if_neg hfree, AList.lookup_insert]
    obtain ⟨request, hrequest, -, hhanded | ⟨frame, hheld⟩⟩ := haccounted _ _ hlook
    · cases List.getElem?_concat_length.symm.trans hrequest
      obtain ⟨link, frame, hhanded, -, hopen⟩ := hhanded
      obtain ⟨conn, hsent, hlink⟩ := handedTo_eq_some hhanded
      exact hunreachable ⟨conn, link, lookup_of_sendRegistered checksum hsent, hlink, hopen⟩
    · cases hheld
  | _ => exact absurd trivial hok

end Dispatch

open Dispatch in
/-- **Requests.** In every state that a run reaches each entry of the table belongs to a request that
was handed to a connection of its service with an open socket, or is held, if and only if every
request that makes an entry is sent to a service that has such a connection. -/
theorem accounted_iff_reachable (checksum : Checksum) {es : List (Dispatch.Event ι κ)}
    {t : Dispatch ι κ} (hrun : Runs.run (step checksum) {} es = some t) :
    (∀ before u, before <+: es → Runs.run (step checksum) {} before = some u → Accounted u) ↔
      Runs.Along (step checksum) SentToReachable {} es :=
  Runs.always_iff_along (fun _ h => Sound.accounted h)
    (fun _ _ _ h hok hstep => Sound.step h hok hstep)
    (fun _ _ _ _ hok hstep => not_accounted_step hok hstep) sound_start hrun

/-- A request is made while its service has an open connection, which is lost then. -/
def lostAfterRequest : List (Dispatch.Event Unit Unit) :=
  [.locate 1, .connectionUp 1, .sendRegistered 1 (.ofBytes [1]) () (), .socketCloses 0,
    .connectionExpires 0]

theorem accounted_iff_reachable_sample :
    ∃ t, Runs.run (Dispatch.step crc32Ieee) {} lostAfterRequest = some t ∧ t.Accounted ∧
      t.locator.registeredCallbacks.keys = [0] := by
  have hkeys : (Runs.run (Dispatch.step crc32Ieee) {} lostAfterRequest).map
      (fun t => t.locator.registeredCallbacks.keys) = some [0] := by decide +kernel
  obtain ⟨t, hrun, hzero⟩ := Option.map_eq_some_iff.1 hkeys
  refine ⟨t, hrun, (accounted_iff_reachable crc32Ieee hrun).2 ?_ _ t List.prefix_rfl hrun, hzero⟩
  refine ⟨trivial, ?_⟩
  rintro _ ⟨⟩
  refine ⟨trivial, ?_⟩
  rintro _ ⟨⟩
  refine ⟨Or.inr ⟨0, { service := 1 }, rfl, rfl, rfl⟩, ?_⟩
  intro _ _
  exact ⟨trivial, fun _ _ => ⟨trivial, fun _ _ => trivial⟩⟩

/-- A request is made before its service has a connection, and its frame goes nowhere. -/
theorem unlocated_not_accounted :
    ∃ t, Runs.run (Dispatch.step crc32Ieee) {}
        [.locate 1, .sendRegistered 1 (.ofBytes [1]) () ()] = some t ∧
      t.locator.registeredCallbacks.keys = [0] ∧
      t.requests = [{ id := 0, type := 1, handed := none }] ∧ ¬ t.Accounted := by
  have hend : (Runs.run (Dispatch.step crc32Ieee) ({} : Dispatch Unit Unit)
      [.locate 1, .sendRegistered 1 (.ofBytes [1]) () ()]).map
      (fun t => (t.locator.registeredCallbacks.keys, t.requests)) =
      some ([0], [{ id := 0, type := 1, handed := none }]) := by decide +kernel
  obtain ⟨t, hrun, hpair⟩ := Option.map_eq_some_iff.1 hend
  obtain ⟨hkeys, hrequests⟩ := Prod.mk.inj hpair
  refine ⟨t, hrun, hkeys, hrequests, ?_⟩
  intro haccounted
  have hmem : (0 : UInt64) ∈ t.locator.registeredCallbacks := by
    rw [AList.mem_keys, hkeys]
    exact List.mem_singleton_self 0
  obtain ⟨container, hlook⟩ := Option.isSome_iff_exists.1 (AList.lookup_isSome.2 hmem)
  obtain ⟨request, hrequest, -, hhanded | ⟨frame, hheld⟩⟩ := haccounted 0 container hlook
  · rw [hrequests] at hrequest
    cases List.mem_singleton.1 (List.mem_of_getElem? hrequest)
    obtain ⟨link, frame, hnone, -⟩ := hhanded
    cases hnone
  · cases hheld

end ServiceLocator

end KeycapRoot.Network
