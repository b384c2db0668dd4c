import KeycapRoot.Network.PendingRequests

/-!
# Exchanges with a service

A locator and a service connection with the frames between them. The service answers every message
that it accepts with `send_answer`, to the sender that it was given; frames arrive whole, those to
the service in order and the answers in any order. A side whose `on_data` returns false or fails
closes its connection.

The answers are told apart by the sender's id alone, and an update carries the id 0, which is also
the first request's. Without answers to updates the table of callbacks and the frames under way
stay `Consistent`, and every callback gets its own answer (`own_answers_along`).
-/

namespace KeycapRoot.Network

open KeycapRoot.Utility RegisteredMessage

/-- A frame on its way to the service. The origin is the number of the request, if it is one. -/
structure Sent where
  origin : Option Nat
  bytes : List UInt8
  deriving DecidableEq, Repr

/-- An answer of the service to the message of some origin, with its frame. -/
structure Answer where
  origin : Option Nat
  payload : Payload
  bytes : List UInt8

structure Request (ι : Type) where
  id : UInt64
  ioService : ι
  payload : Payload

/-- The bytes are the frame of a message, of the request with that number if there is an origin. -/
def Sent.Carries {ι : Type} (checksum : Checksum) (requests : List (Request ι)) (f : Sent) : Prop :=
  ∃ m : SentMessage, f.bytes = m.frame checksum ∧ ∀ n, f.origin = some n →
    ∃ r, requests[n]? = some r ∧
      m = { sender := r.id, command := .request, payload := r.payload }

/-- The bytes are the frame of an answer to the request with that number, if there is an origin. -/
def Answer.Carries {ι : Type} (checksum : Checksum) (requests : List (Request ι)) (a : Answer) : Prop :=
  ∀ n, a.origin = some n → ∃ r, requests[n]? = some r ∧
    a.bytes = SentMessage.frame checksum
      { sender := r.id, command := .request, payload := a.payload }

/-- The two sides, the frames between them, and what has happened so far: the requests made, the
calls of the service's `on_data`, its answers, those that have arrived, and the callbacks posted.
Each callback is the number of its request. -/
structure Exchange (ι : Type) where
  locator : ServiceLocator ι Nat
  locatorOpen : Bool := true
  serviceOpen : Bool := true
  inputStream : MemoryStream := {}
  toService : List Sent := []
  toLocator : List Answer := []
  requests : List (Request ι) := []
  handled : List Call := []
  answers : List Answer := []
  arrived : List Answer := []
  posts : List (Post ι Nat) := []

namespace Exchange

variable {ι : Type}

inductive Event (ι : Type)
  | sendTo (message : Payload)
  | sendRegistered (message : Payload) (ioService : ι)
  /-- The first frame reaches the service, which answers it with the payload. -/
  | serve (beyond : Beyond) (answer : Payload)
  /-- One of the answers under way reaches the locator. -/
  | arrive (beyond : Beyond) (i : Nat)

def start (services : AList fun _ : ServiceType => Service) : Exchange ι where
  locator := { services }

section Step

variable (checksum : Checksum) (type : ServiceType)

def step (s : Exchange ι) : Event ι → Option (Exchange ι)
  | .sendTo message =>
    let sent := s.locator.sendTo checksum type message.stream
    some { s with
      toService := s.toService ++ sent.toList.map fun (_, bytes) => { origin := none, bytes } }
  | .sendRegistered message ioService =>
    let n := s.requests.length
    let (locator, sent) := s.locator.sendRegistered checksum type message.stream ioService n
    some { s with
      locator
      toService := s.toService ++ sent.toList.map fun (_, bytes) => { origin := some n, bytes }
      requests := s.requests ++
        [{ id := s.locator.registeredCallbackCounter, ioService, payload := message }] }
  | .serve beyond answer =>
    match s.serviceOpen, s.toService with
    | true, frame :: toService =>
      match ServiceConnection.onData beyond checksum (fun _ => true) type frame.bytes
          s.inputStream with
      | .ok (ret, calls) inputStream =>
        let answers := calls.map fun call => {
          origin := frame.origin
          payload := answer
          bytes := ServiceConnection.sendAnswer checksum call.sender answer.stream }
        some { s with
          serviceOpen := ret, inputStream, toService
          toLocator := s.toLocator ++ answers
          handled := s.handled ++ calls
          answers := s.answers ++ answers }
      | .error _ inputStream => some { s with serviceOpen := false, inputStream, toService }
    | _, _ => none
  | .arrive beyond i =>
    match s.locatorOpen, s.toLocator[i]? with
    | true, some answer =>
      let s := { s with
        toLocator := s.toLocator.eraseIdx i
        arrived := s.arrived ++ [answer] }
      match s.locator.onData beyond checksum type answer.bytes with
      | .ok (ret, posts) locator =>
        some { s with locator, locatorOpen := ret, posts := s.posts ++ posts }
      | .error _ locator => some { s with locator, locatorOpen := false }
    | _, _ => none

end Step

/-! ## Consistency -/

/-- The callback of the request that the answer answers is posted with the answer's payload. -/
def Answers (type : ServiceType) (requests : List (Request ι)) (a : Answer) (post : Post ι Nat) :
    Prop :=
  ∃ n r, a.origin = some n ∧ requests[n]? = some r ∧
    post = { ioService := r.ioService, callback := n, sender := type,
             payload := .ofBytes a.payload.bytes }

/-- The requests that are under way, themselves or their answers. -/
def underWay (s : Exchange ι) : List Nat :=
  s.toService.filterMap Sent.origin ++ s.toLocator.filterMap Answer.origin

/-- The table has the callback of the request. -/
def Awaits (type : ServiceType) (s : Exchange ι) (n : Nat) : Prop :=
  ∃ r, s.requests[n]? = some r ∧ s.locator.registeredCallbacks.lookup r.id =
    some { type, ioService := r.ioService, callback := n }

structure Consistent (checksum : Checksum) (type : ServiceType) (s : Exchange ι) : Prop where
  live : ∃ conn, s.locator.services.lookup type = some { connection := some conn }
  locatorOpen : s.locatorOpen = true
  inputStream : s.inputStream = {}
  toService : ∀ f ∈ s.toService, f.Carries checksum s.requests
  toLocator : ∀ a ∈ s.toLocator, a.Carries checksum s.requests
  awaited : ∀ n ∈ s.underWay, s.Awaits type n
  once : s.underWay.Nodup
  answers : (s.arrived ++ s.toLocator).Perm s.answers
  posts : List.Forall₂ (Answers type s.requests) s.arrived s.posts

theorem consistent_start (checksum : Checksum) (type : ServiceType)
    {services : AList fun _ : ServiceType => Service} {conn : Nat}
    (hlive : services.lookup type = some { connection := some conn }) :
    Consistent checksum type (start services : Exchange ι) where
  live := ⟨conn, hlive⟩
  locatorOpen := rfl
  inputStream := rfl
  toService := fun _ h => by cases h
  toLocator := fun _ h => by cases h
  awaited := fun _ h => by cases h
  once := List.nodup_nil
  answers := List.Perm.nil
  posts := List.Forall₂.nil

section Consistency

variable {checksum : Checksum} {type : ServiceType} {s s' : Exchange ι}

theorem Consistent.sendTo (h : Consistent checksum type s) {message : Payload}
    (hstep : step checksum type s (.sendTo message) = some s') :
    Consistent checksum type s' := by
  obtain ⟨conn, hlive⟩ := h.live
  simp only [step, ServiceLocator.sendTo_live checksum hlive, Option.toList_some,
    List.map_singleton, Option.some.injEq] at hstep
  have hway : s'.underWay = s.underWay := by
    subst hstep
    simp [underWay]
  subst hstep
  exact { h with
    toService := fun f hf => by
      rcases List.mem_append.1 hf with hf | hf
      · exact h.toService f hf
      · rw [List.mem_singleton.1 hf]
        exact ⟨_, rfl, fun n hn => by cases hn⟩
    awaited := fun n hn => h.awaited n (hway ▸ hn)
    once := hway ▸ h.once }

/-- A later request changes nothing of the earlier ones. -/
theorem getElem?_requests_append {requests more : List (Request ι)} {n : Nat} {r : Request ι}
    (h : requests[n]? = some r) : (requests ++ more)[n]? = some r := by
  rw [List.getElem?_append_left (List.getElem?_eq_some_iff.1 h).1, h]

theorem Consistent.sendRegistered (h : Consistent checksum type s) {message : Payload}
    {ioService : ι}
    (hfree : s.locator.registeredCallbackCounter ∉ s.locator.registeredCallbacks)
    (hstep : step checksum type s (.sendRegistered message ioService) = some s') :
    Consistent checksum type s' := by
  obtain ⟨conn, hlive⟩ := h.live
  have hloc := ServiceLocator.sendRegistered_fst checksum type message.stream ioService
    s.requests.length hfree
  have hsent := ServiceLocator.sendRegistered_live checksum hlive message ioService
    s.requests.length
  simp only [step, hloc, hsent, Option.toList_some, List.map_singleton,
    Option.some.injEq] at hstep
  have hlen : ∀ n ∈ s.underWay, n < s.requests.length := fun n hn => by
    obtain ⟨r, hr, -⟩ := h.awaited n hn
    exact (List.getElem?_eq_some_iff.1 hr).1
  have hway : s'.underWay.Perm (s.requests.length :: s.underWay) := by
    subst hstep
    simp [underWay]
  subst hstep
  exact {
    live := ⟨conn, hlive⟩
    locatorOpen := h.locatorOpen
    inputStream := h.inputStream
    toService := fun f hf => by
      rcases List.mem_append.1 hf with hf | hf
      · obtain ⟨m, hm, hreq⟩ := h.toService f hf
        refine ⟨m, hm, ?_⟩
        intro n hn
        obtain ⟨r, hr, hmr⟩ := hreq n hn
        exact ⟨r, getElem?_requests_append hr, hmr⟩
      · rw [List.mem_singleton.1 hf]
        exact ⟨_, rfl, fun n hn => ⟨_, Option.some.inj hn ▸ List.getElem?_concat_length, rfl⟩⟩
    toLocator := fun a ha n hn => by
      obtain ⟨r, hr, hbytes⟩ := h.toLocator a ha n hn
      exact ⟨r, getElem?_requests_append hr, hbytes⟩
    awaited := fun n hn => by
      rcases List.mem_cons.1 (hway.mem_iff.1 hn) with rfl | hn
      · exact ⟨_, List.getElem?_concat_length, AList.lookup_insert _⟩
      · -- the entries of the requests under way are not the new one
        obtain ⟨r, hr, hlook⟩ := h.awaited n hn
        refine ⟨r, getElem?_requests_append hr, ?_⟩
        have hne : r.id ≠ s.locator.registeredCallbackCounter := fun heq =>
          hfree (heq ▸ AList.lookup_isSome.1 (by rw [hlook]; rfl))
        exact (AList.lookup_insert_ne hne).trans hlook
    once := hway.nodup_iff.2
      (List.nodup_cons.2 ⟨fun hn => Nat.lt_irrefl _ (hlen _ hn), h.once⟩)
    answers := h.answers
    posts := h.posts.imp fun a post ⟨n, r, hn, hr, hpost⟩ =>
      ⟨n, r, hn, getElem?_requests_append hr, hpost⟩ }

/-- What the service makes of the first frame: it answers the message, or it closes. -/
theorem Consistent.serve_cases (h : Consistent checksum type s) {beyond : Beyond}
    {answer : Payload} (hstep : step checksum type s (.serve beyond answer) = some s') :
    ∃ (f : Sent) (rest : List Sent) (m : SentMessage), s.toService = f :: rest ∧
      f.bytes = m.frame checksum ∧
      ((ServiceConnection.accepts checksum (m.frame checksum) = true ∧
        ∃ a : Answer, a.origin = f.origin ∧ a.payload = answer ∧
          a.bytes = SentMessage.frame checksum
            { sender := m.sender, command := .request, payload := answer } ∧
          s' = { s with
            serviceOpen := true
            inputStream := {}
            toService := rest
            toLocator := s.toLocator ++ [a]
            handled := s.handled ++ [ServiceConnection.callOf type (m.frame checksum)]
            answers := s.answers ++ [a] }) ∨
      (ServiceConnection.accepts checksum (m.frame checksum) = false ∧
        s' = { s with serviceOpen := false, inputStream := {}, toService := rest })) := by
  simp only [step] at hstep
  split at hstep
  · rename_i f rest hopen hfirst
    obtain ⟨m, hm, -⟩ := h.toService f (hfirst ▸ List.mem_cons_self)
    rw [h.inputStream, hm, ServiceConnection.onData_frame] at hstep
    refine ⟨f, rest, m, hfirst, hm, ?_⟩
    cases hacc : ServiceConnection.accepts checksum (m.frame checksum) with
    | true =>
      simp only [hacc, if_true, List.map_singleton, Option.some.injEq] at hstep
      refine Or.inl ⟨rfl, _, rfl, rfl, ?_, hstep.symm⟩
      rw [ServiceConnection.sendAnswer_eq_frame]
      exact congrArg (fun id => SentMessage.frame checksum
        { sender := id, command := .request, payload := answer }) (m.sender_parse_frame checksum)
    | false =>
      simp only [hacc, Bool.false_eq_true, if_false, List.map_nil, List.append_nil,
        Option.some.injEq] at hstep
      exact Or.inr ⟨rfl, hstep.symm⟩
  · cases hstep

theorem Consistent.serve (h : Consistent checksum type s) {beyond : Beyond} {answer : Payload}
    (hstep : step checksum type s (.serve beyond answer) = some s') :
    Consistent checksum type s' := by
  obtain ⟨f, rest, m, hfirst, hm, hcase⟩ := h.serve_cases hstep
  rcases hcase with ⟨-, a, horigin, hpayload, hbytes, hs'⟩ | ⟨-, hs'⟩
  · -- the request that was under way to the service is under way back
    have hway : s'.underWay.Perm s.underWay := by
      subst hs'
      simp only [underWay, hfirst, List.filterMap_append]
      cases hf : f.origin with
      | none => simp [hf, horigin]
      | some n =>
        simp only [List.filterMap_cons, hf, horigin, List.filterMap_nil, List.cons_append]
        rw [← List.append_assoc]
        exact List.perm_append_singleton n _
    subst hs'
    exact { h with
      inputStream := rfl
      toService := fun f hf => h.toService f (hfirst ▸ List.mem_cons_of_mem _ hf)
      toLocator := fun b hb n hn => by
        rcases List.mem_append.1 hb with hb | hb
        · exact h.toLocator b hb n hn
        · rw [List.mem_singleton.1 hb] at hn ⊢
          obtain ⟨m', hm', hreq⟩ := h.toService f (hfirst ▸ List.mem_cons_self)
          obtain ⟨r, hr, rfl⟩ := hreq n (horigin ▸ hn)
          have hid : m.sender = r.id := by
            rw [← m.sender_parse_frame checksum, ← hm, hm', SentMessage.sender_parse_frame]
          exact ⟨r, hr, by rw [hbytes, hid, hpayload]⟩
      awaited := fun n hn => h.awaited n (hway.mem_iff.1 hn)
      once := hway.nodup_iff.2 h.once
      answers := by
        rw [← List.append_assoc]
        exact h.answers.append_right _ }
  · -- the message is refused, and its request is under way no longer
    have hway : s'.underWay.Sublist s.underWay := by
      subst hs'
      simp only [underWay, hfirst]
      exact ((List.sublist_cons_self f rest).filterMap _).append_right _
    subst hs'
    exact { h with
      inputStream := rfl
      toService := fun f hf => h.toService f (hfirst ▸ List.mem_cons_of_mem _ hf)
      awaited := fun n hn => h.awaited n (hway.subset hn)
      once := hway.nodup h.once }

/-- A fresh answer to a request posts the callback of the request. -/
theorem Consistent.arrive_cases (h : Consistent checksum type s) {beyond : Beyond} {i : Nat}
    (hown : ∀ a, s.toLocator[i]? = some a → a.origin ≠ none ∧ a.payload.Fresh)
    (hstep : step checksum type s (.arrive beyond i) = some s') :
    ∃ a n r, s.toLocator[i]? = some a ∧ a.origin = some n ∧ s.requests[n]? = some r ∧
      s' = { s with
        locator := s.locator.forget r.id
        locatorOpen := true
        toLocator := s.toLocator.eraseIdx i
        arrived := s.arrived ++ [a]
        posts := s.posts ++ [{ ioService := r.ioService, callback := n, sender := type,
                               payload := .ofBytes a.payload.bytes }] } := by
  simp only [step] at hstep
  split at hstep
  · rename_i a hopen ha
    obtain ⟨horigin, hfresh⟩ := hown a ha
    obtain ⟨n, hn⟩ := Option.ne_none_iff_exists'.1 horigin
    have hmem := List.mem_of_getElem? ha
    obtain ⟨r, hr, hbytes⟩ := h.toLocator a hmem n hn
    obtain ⟨r', hr', hlook⟩ := h.awaited n
      (List.mem_append_right _ (List.mem_filterMap.2 ⟨a, hmem, hn⟩))
    cases hr.symm.trans hr'
    let m : SentMessage := { sender := r.id, command := .request, payload := a.payload }
    have hanswer : ServiceLocator.IsAnswer checksum (m.frame checksum) :=
      ServiceLocator.isAnswer_frame hfresh
    have hon := ServiceLocator.onData_of_isAnswer beyond type hanswer s.locator
    have hsender : m.sender = r.id := rfl
    rw [m.sender_parse_frame checksum, hsender, hlook] at hon
    have hpost : ServiceLocator.postOf
        ({ type, ioService := r.ioService, callback := n } : RegisteredCallbackContainer ι Nat)
        (m.frame checksum) =
        { ioService := r.ioService, callback := n, sender := type,
          payload := .ofBytes a.payload.bytes } := by
      rw [ServiceLocator.postOf, m.parse_frame_of_fresh checksum hfresh]
    simp only [hpost] at hon
    have hframe : a.bytes = m.frame checksum := hbytes
    simp only [hframe, hon, Option.some.injEq] at hstep
    exact ⟨a, n, r, ha, hn, hr, hstep.symm⟩
  · cases hstep

theorem Consistent.arrive (h : Consistent checksum type s) {beyond : Beyond} {i : Nat}
    (hown : ∀ a, s.toLocator[i]? = some a → a.origin ≠ none ∧ a.payload.Fresh)
    (hstep : step checksum type s (.arrive beyond i) = some s') :
    Consistent checksum type s' := by
  obtain ⟨a, n, r, ha, hn, hr, hs'⟩ := h.arrive_cases hown hstep
  obtain ⟨hi, hget⟩ := List.getElem?_eq_some_iff.1 ha
  have hperm : s.toLocator.Perm (a :: s.toLocator.eraseIdx i) := by
    have hsplit : s.toLocator = s.toLocator.take i ++ a :: s.toLocator.drop (i + 1) := by
      rw [← hget, List.getElem_cons_drop, List.take_append_drop]
    rw [List.eraseIdx_eq_take_drop_succ]
    exact (List.Perm.of_eq hsplit).trans List.perm_middle
  have hway : s.underWay.Perm (n :: s'.underWay) := by
    have hback := hperm.filterMap Answer.origin
    rw [List.filterMap_cons, hn] at hback
    subst hs'
    exact (hback.append_left _).trans List.perm_middle
  obtain ⟨hgone, honce⟩ := List.nodup_cons.1 (hway.nodup_iff.1 h.once)
  obtain ⟨r₀, hr₀, hlook⟩ := h.awaited n (hway.mem_iff.2 List.mem_cons_self)
  cases hr.symm.trans hr₀
  have hawait : ∀ k ∈ s'.underWay, ∃ r', s.requests[k]? = some r' ∧
      (s.locator.forget r.id).registeredCallbacks.lookup r'.id =
        some { type, ioService := r'.ioService, callback := k } := by
    intro k hk
    obtain ⟨r', hr', hlook'⟩ := h.awaited k (hway.mem_iff.2 (List.mem_cons_of_mem _ hk))
    -- no other request under way shares the entry
    have hne : r'.id ≠ r.id := fun heq => by
      rw [heq, hlook, Option.some.injEq, RegisteredCallbackContainer.mk.injEq] at hlook'
      exact hgone (hlook'.2.2 ▸ hk)
    exact ⟨r', hr', (AList.lookup_erase_ne hne).trans hlook'⟩
  subst hs'
  exact {
    live := h.live
    locatorOpen := rfl
    inputStream := h.inputStream
    toService := h.toService
    toLocator := fun b hb => h.toLocator b (List.mem_of_mem_eraseIdx hb)
    awaited := hawait
    once := honce
    answers := by
      rw [List.append_assoc]
      exact (hperm.symm.append_left _).trans h.answers
    posts := List.rel_append h.posts
      (List.Forall₂.cons ⟨n, r, hn, hr, rfl⟩ List.Forall₂.nil) }

end Consistency

/-! ## Own answers -/

/-- The post hands the answer to the callback of the request that the answer is for. -/
def PostedFrom (a : Answer) (post : Post ι Nat) : Prop :=
  a.origin = some post.callback ∧ post.payload = .ofBytes a.payload.bytes

/-- Every post comes from an answer of its own that has arrived, one that the service made for the
request of the callback, and no answer is refused. -/
def OwnAnswers (s : Exchange ι) : Prop :=
  s.locatorOpen = true ∧ ∃ sources, sources.Sublist s.arrived ∧ sources ⊆ s.answers ∧
    List.Forall₂ PostedFrom sources s.posts

/-- A request is given an id that no pending request has. -/
def FreeId (s : Exchange ι) : Event ι → Prop
  | .sendRegistered _ _ =>
    s.locator.registeredCallbackCounter ∉ s.locator.registeredCallbacks
  | _ => True

/-- The condition on a step: a request is given an id that no pending request has, and an answer
that arrives is the answer to a request, sent from a fresh payload. -/
def OwnIds (s : Exchange ι) : Event ι → Prop
  | .sendTo _ => True
  | .sendRegistered _ _ =>
    s.locator.registeredCallbackCounter ∉ s.locator.registeredCallbacks
  | .serve _ _ => True
  | .arrive _ i => ∀ a, s.toLocator[i]? = some a → a.origin ≠ none ∧ a.payload.Fresh

theorem Consistent.step {checksum : Checksum} {type : ServiceType} {s s' : Exchange ι}
    {e : Event ι} (h : Consistent checksum type s) (hids : s.OwnIds e)
    (hstep : Exchange.step checksum type s e = some s') : Consistent checksum type s' := by
  cases e with
  | sendTo message => exact h.sendTo hstep
  | sendRegistered message ioService => exact h.sendRegistered hids hstep
  | serve beyond answer => exact h.serve hstep
  | arrive beyond i => exact h.arrive hids hstep

theorem Consistent.ownAnswers {checksum : Checksum} {type : ServiceType} {s : Exchange ι}
    (h : Consistent checksum type s) : s.OwnAnswers := by
  refine ⟨h.locatorOpen, s.arrived, List.Sublist.refl _, ?_, ?_⟩
  · exact fun a ha => h.answers.subset (List.mem_append_left _ ha)
  · refine h.posts.imp ?_
    rintro a post ⟨n, r, hn, -, rfl⟩
    exact ⟨hn, rfl⟩

/-- **Own answers.** In every run whose steps meet the condition, every post comes from an answer to
the callback's own request and no answer is refused. -/
theorem own_answers_along (checksum : Checksum) (type : ServiceType)
    {services : AList fun _ : ServiceType => Service} {conn : Nat}
    (hlive : services.lookup type = some { connection := some conn })
    {es : List (Event ι)} {s : Exchange ι}
    (hids : Runs.Along (step checksum type) OwnIds (start services) es)
    (hrun : Runs.run (step checksum type) (start services) es = some s) : s.OwnAnswers :=
  (Runs.run_invariant_along (fun _ _ _ h hids hstep => h.step hids hstep)
    (consistent_start checksum type hlive) hids hrun).ownAnswers

section Samples

instance (s : Exchange ι) (e : Event ι) : Decidable (s.OwnIds e) :=
  match e with
  | .sendTo _ => isTrue trivial
  | .sendRegistered _ _ => inferInstanceAs (Decidable (_ ∉ _))
  | .serve _ _ => isTrue trivial
  | .arrive _ i =>
    match h : s.toLocator[i]? with
    | none => isTrue fun a ha => by cases h.symm.trans ha
    | some a => decidable_of_iff (a.origin ≠ none ∧ a.payload.stream.readPosition = 0)
        ⟨fun hown b hb => by cases h.symm.trans hb; exact hown, fun hown => hown a h⟩

/-- A connection to service 1. -/
def sampleServices : AList fun _ : ServiceType => Service :=
  ServiceLocator.tryEmplace ∅ 1 { connection := some 0 }

def samplePayload : Payload := .ofBytes [7, 8, 9] (by decide)

/-- A request, and its answer. -/
def requestEvents : List (Event Unit) :=
  [.sendRegistered samplePayload (), .serve (fun _ => none) samplePayload,
    .arrive (fun _ => none) 0]

theorem own_answers_along_sample :
    ∃ s, Runs.run (step crc32Ieee 1) (start sampleServices) requestEvents = some s ∧
      s.OwnAnswers ∧ s.posts.length = 1 := by
  have hposts : (Runs.run (step crc32Ieee 1) (start sampleServices) requestEvents).map
      (fun s => s.posts.length) = some 1 := by decide +kernel
  obtain ⟨s, hrun, hone⟩ := Option.map_eq_some_iff.1 hposts
  exact ⟨s, hrun, own_answers_along crc32Ieee 1 rfl (by decide +kernel) hrun, hone⟩

/-- An update, then a request, and the answer to the update. -/
def updateEvents : List (Event Unit) :=
  [.sendTo samplePayload, .sendRegistered samplePayload (), .serve (fun _ => none) samplePayload,
    .arrive (fun _ => none) 0]

/-- The callback of the request gets the answer to the update. -/
theorem update_answer_posted :
    ∃ s, Runs.run (step crc32Ieee 1) (start sampleServices) updateEvents = some s ∧
      ¬ s.OwnAnswers := by
  have hposts : (Runs.run (step crc32Ieee 1) (start sampleServices) updateEvents).map
      (fun s => (s.posts.length, s.answers.map Answer.origin)) = some (1, [none]) := by
    decide +kernel
  obtain ⟨s, hrun, hall⟩ := Option.map_eq_some_iff.1 hposts
  rw [Prod.mk.injEq] at hall
  obtain ⟨hone, horigins⟩ := hall
  refine ⟨s, hrun, ?_⟩
  rintro ⟨-, sources, -, hanswers, hposted⟩
  rw [← hposted.length_eq] at hone
  obtain ⟨a, rfl⟩ := List.length_eq_one_iff.1 hone
  obtain ⟨post, posts, hfrom, -, -⟩ := List.forall₂_cons_left_iff.1 hposted
  -- the only answer is the one to the update
  have hmem := List.mem_map_of_mem (f := Answer.origin) (hanswers List.mem_cons_self)
  rw [horigins, List.mem_singleton, hfrom.1] at hmem
  cases hmem

end Samples

end Exchange

end KeycapRoot.Network
