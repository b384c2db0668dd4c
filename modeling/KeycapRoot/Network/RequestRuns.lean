import KeycapRoot.Network.Exchange

/-!
# Requests and answers

An exchange of requests alone, with payloads that nobody has read from, goes as it should: the
service accepts every request and is handed the sender and the payload that were sent, and every
answer, in whatever order they arrive, is accepted and posted to the callback of its request
(`every_request_answered`).
-/

namespace KeycapRoot.Network

open KeycapRoot.Utility RegisteredMessage

namespace Exchange

variable {ι : Type}

/-- Nothing is sent but requests, and all payloads are fresh. -/
def IsRequest : Event ι → Prop
  | .sendTo _ => False
  | .sendRegistered message _ => message.Fresh
  | .serve _ answer => answer.Fresh
  | .arrive _ _ => True

/-- The call of the service's `on_data` that a request is made for. -/
def callForRequest (type : ServiceType) (r : Request ι) : Call where
  service := type
  sender := r.id
  payload := .ofBytes r.payload.bytes

/-- Requests that go as they should. The messages handled and the messages on their way are the
requests made, in order. -/
structure Orderly (checksum : Checksum) (type : ServiceType) (s : Exchange ι) : Prop where
  consistent : Consistent checksum type s
  serviceOpen : s.serviceOpen = true
  fresh : ∀ r ∈ s.requests, r.payload.Fresh
  freshAnswers : ∀ a ∈ s.toLocator, a.payload.Fresh
  origins : s.answers.map Answer.origin ++ s.toService.map Sent.origin =
    (List.range s.requests.length).map some
  handled : s.handled = (s.requests.take s.answers.length).map (callForRequest type)

theorem orderly_start (checksum : Checksum) (type : ServiceType)
    {services : AList fun _ : ServiceType => Service} {conn : Nat}
    (hlive : services.lookup type = some { connection := some conn }) :
    Orderly checksum type (start services : Exchange ι) where
  consistent := consistent_start checksum type hlive
  serviceOpen := rfl
  fresh := fun _ h => by cases h
  freshAnswers := fun _ h => by cases h
  origins := rfl
  handled := rfl

section Steps

variable {checksum : Checksum} {type : ServiceType} {s s' : Exchange ι}

/-- Every request has been answered or is on its way to the service. -/
theorem Orderly.length_answers (h : Orderly checksum type s) :
    s.answers.length + s.toService.length = s.requests.length := by
  have hlen := congrArg List.length h.origins
  rwa [List.length_append, List.length_map, List.length_map, List.length_map,
    List.length_range] at hlen

theorem Orderly.sendRegistered (h : Orderly checksum type s)
    (hfree : s.locator.registeredCallbackCounter ∉ s.locator.registeredCallbacks)
    {message : Payload} {ioService : ι} (hfresh : message.Fresh)
    (hstep : step checksum type s (.sendRegistered message ioService) = some s') :
    Orderly checksum type s' := by
  have hcons := h.consistent.sendRegistered hfree hstep
  obtain ⟨conn, hlive⟩ := h.consistent.live
  have hsent := ServiceLocator.sendRegistered_live checksum hlive message ioService
    s.requests.length
  have hanswers : s.answers.length ≤ s.requests.length :=
    h.length_answers ▸ Nat.le_add_right _ _
  simp only [step, hsent, Option.toList_some, List.map_singleton, Option.some.injEq] at hstep
  subst hstep
  exact {
    consistent := hcons
    serviceOpen := h.serviceOpen
    fresh := List.forall_mem_append.2 ⟨h.fresh, List.forall_mem_singleton.2 hfresh⟩
    freshAnswers := h.freshAnswers
    origins := by
      rw [List.map_append, List.map_singleton, ← List.append_assoc, h.origins,
        List.length_append, List.length_singleton, List.range_succ, List.map_append,
        List.map_singleton]
    handled := by
      rw [List.take_append_of_le_length hanswers]
      exact h.handled }

/-- The first frame on its way carries the first request that has not been handled. -/
theorem Orderly.first (h : Orderly checksum type s) {f : Sent} {rest : List Sent}
    (hfirst : s.toService = f :: rest) :
    ∃ r, s.requests[s.answers.length]? = some r ∧ f.bytes = SentMessage.frame checksum
      { sender := r.id, command := .request, payload := r.payload } := by
  obtain ⟨m, hm, hreq⟩ := h.consistent.toService f (hfirst ▸ List.mem_cons_self)
  have horigin : ((List.range s.requests.length).map some)[s.answers.length]? =
      some f.origin := by
    rw [← h.origins, hfirst, List.map_cons, List.getElem?_append_right (by simp)]
    simp
  rw [List.getElem?_map, Option.map_eq_some_iff] at horigin
  obtain ⟨n, hn, hf⟩ := horigin
  rw [List.getElem?_eq_some_iff] at hn
  obtain ⟨hlt, hn⟩ := hn
  rw [List.getElem_range] at hn
  obtain ⟨r, hr, rfl⟩ := hreq n hf.symm
  exact ⟨r, hn ▸ hr, hm⟩

theorem Orderly.serve (h : Orderly checksum type s) {beyond : Beyond} {answer : Payload}
    (hfresh : answer.Fresh) (hstep : step checksum type s (.serve beyond answer) = some s') :
    Orderly checksum type s' := by
  have hcons := h.consistent.serve hstep
  obtain ⟨f, rest, m, hfirst, hm, hcase⟩ := h.consistent.serve_cases hstep
  obtain ⟨r, hr, hbytes⟩ := h.first hfirst
  have hrfresh : r.payload.Fresh := h.fresh r (List.mem_of_getElem? hr)
  rw [← hm, hbytes] at hcase
  let request : SentMessage := { sender := r.id, command := .request, payload := r.payload }
  have hcall := ServiceConnection.callOf_frame checksum (m := request) hrfresh type
  rcases hcase with ⟨-, a, horigin, hpayload, -, rfl⟩ | ⟨hrefused, -⟩
  · exact {
      consistent := hcons
      serviceOpen := rfl
      fresh := h.fresh
      freshAnswers := List.forall_mem_append.2 ⟨h.freshAnswers, List.forall_mem_singleton.2
        (hpayload ▸ hfresh)⟩
      origins := by
        rw [← h.origins, hfirst, List.map_append, List.map_singleton, horigin, List.append_assoc]
        rfl
      handled := by
        rw [List.length_append, List.length_singleton, List.take_add_one, hr, List.map_append,
          ← h.handled, hcall]
        rfl }
  · -- a fresh request is not refused
    rw [ServiceConnection.accepts_frame checksum (m := request) hrfresh] at hrefused
    cases hrefused

theorem Orderly.arrive (h : Orderly checksum type s) {beyond : Beyond} {i : Nat}
    (hstep : step checksum type s (.arrive beyond i) = some s') : Orderly checksum type s' := by
  have hown : ∀ a, s.toLocator[i]? = some a → a.origin ≠ none ∧ a.payload.Fresh := by
    intro a ha
    have hmem := List.mem_of_getElem? ha
    refine ⟨?_, h.freshAnswers a hmem⟩
    intro hnone
    have horigin := List.mem_map_of_mem (f := Answer.origin)
      (h.consistent.answers.subset (List.mem_append_right _ hmem))
    have hall : a.origin ∈ (List.range s.requests.length).map some :=
      h.origins ▸ List.mem_append_left _ horigin
    rw [hnone] at hall
    simp at hall
  have hcons := h.consistent.arrive hown hstep
  obtain ⟨a, n, r, -, -, -, rfl⟩ := h.consistent.arrive_cases hown hstep
  exact {
    consistent := hcons
    serviceOpen := h.serviceOpen
    fresh := h.fresh
    freshAnswers := fun b hb => h.freshAnswers b (List.mem_of_mem_eraseIdx hb)
    origins := h.origins
    handled := h.handled }

theorem Orderly.step (h : Orderly checksum type s) {e : Event ι} (he : IsRequest e)
    (hid : s.FreeId e) (hstep : Exchange.step checksum type s e = some s') :
    Orderly checksum type s' := by
  cases e with
  | sendTo message => exact he.elim
  | sendRegistered message ioService => exact h.sendRegistered hid he hstep
  | serve beyond answer => exact h.serve he hstep
  | arrive beyond i => exact h.arrive hstep

end Steps

/-! ## Free ids -/

def Event.requests : Event ι → Bool
  | .sendRegistered _ _ => true
  | _ => false

section FreeIds

variable {checksum : Checksum} {type : ServiceType} {s s' : Exchange ι} {n : Nat}

theorem numbered_step (h : s.locator.Numbered n) {e : Event ι}
    (hn : e.requests = true → n < 2 ^ 64) (hstep : step checksum type s e = some s') :
    s'.locator.Numbered (n + if e.requests then 1 else 0) := by
  cases e with
  | sendTo message =>
    cases hstep
    exact h
  | sendRegistered message ioService =>
    cases hstep
    exact h.sendRegistered (hn rfl) checksum type message.stream ioService s.requests.length
  | serve beyond answer =>
    simp only [step] at hstep
    split at hstep
    · split at hstep <;>
      · cases hstep
        exact h
    · cases hstep
  | arrive beyond i =>
    simp only [step] at hstep
    split at hstep
    · rename_i answer hopen hanswer
      rcases ServiceLocator.onData_cases beyond type checksum answer.bytes s.locator with
        ⟨-, container, -, hon⟩ | ⟨ret, hon⟩ | ⟨e, hon⟩ <;> rw [hon] at hstep <;> cases hstep
      · exact h.forget _
      · exact h
      · exact h
    · cases hstep

/-- The first 2^64 requests all get an id that is free. -/
theorem freeId_along (h : s.locator.Numbered n) {es : List (Event ι)}
    (hfew : n + es.countP Event.requests ≤ 2 ^ 64) :
    Runs.Along (step checksum type) FreeId s es := by
  induction es generalizing s n with
  | nil => trivial
  | cons e es ih =>
    rw [List.countP_cons] at hfew
    have hn (he : e.requests = true) : n < 2 ^ 64 := by
      rw [if_pos he] at hfew
      omega
    refine ⟨?_, ?_⟩
    · cases e with
      | sendRegistered message ioService => exact h.free (hn rfl)
      | _ => trivial
    · intro s' hstep
      exact ih (numbered_step h hn hstep) (by omega)

end FreeIds

/-- The callbacks posted are those of the requests whose answers have arrived. -/
theorem map_callback_of_answers {type : ServiceType} {requests : List (Request ι)}
    {arrived : List Answer} {posts : List (Post ι Nat)}
    (h : List.Forall₂ (Answers type requests) arrived posts) :
    posts.map (fun post => some post.callback) = arrived.map Answer.origin := by
  induction h with
  | nil => rfl
  | cons hpost _ ih =>
    obtain ⟨n, r, hn, -, rfl⟩ := hpost
    rw [List.map_cons, List.map_cons, ih, hn]

/-- **Requests.** In every run of requests with fresh payloads, where no request gets the id of one
that is pending, both sides accept every frame and nothing stays in the service's stream. The
service has handled the requests in order, each with its id and its payload. Every answer is on its
way or has arrived, each that has arrived has been posted with its payload to the callback of its
request, and once nothing is on its way every callback has been posted exactly once. -/
theorem every_request_answered (checksum : Checksum) (type : ServiceType)
    {services : AList fun _ : ServiceType => Service} {conn : Nat}
    (hlive : services.lookup type = some { connection := some conn })
    {es : List (Event ι)} {s : Exchange ι} (hes : ∀ e ∈ es, IsRequest e)
    (hids : Runs.Along (step checksum type) FreeId (start services) es)
    (hrun : Runs.run (step checksum type) (start services) es = some s) :
    (s.serviceOpen = true ∧ s.inputStream = {} ∧
      s.handled = (s.requests.take s.answers.length).map (callForRequest type)) ∧
    (s.locatorOpen = true ∧ (s.arrived ++ s.toLocator).Perm s.answers ∧
      s.answers.map Answer.origin = (List.range s.answers.length).map some ∧
      List.Forall₂ (Answers type s.requests) s.arrived s.posts) ∧
    (s.toService = [] → s.toLocator = [] →
      (s.posts.map Post.callback).Perm (List.range s.requests.length)) := by
  have hkeep : ∀ (s : Exchange ι) (e : Event ι) (s' : Exchange ι), Orderly checksum type s →
      IsRequest e ∧ s.FreeId e → step checksum type s e = some s' → Orderly checksum type s' :=
    fun s e s' h hok hstep => h.step hok.1 hok.2 hstep
  have h : Orderly checksum type s := Runs.run_invariant_along hkeep
    (orderly_start checksum type hlive) ((Runs.along_of_forall hes _).and hids) hrun
  have hposts := map_callback_of_answers h.consistent.posts
  have hlen := h.length_answers
  have horigins : s.answers.map Answer.origin = (List.range s.answers.length).map some := by
    have htake := congrArg (List.take s.answers.length) h.origins
    rwa [List.take_left' (List.length_map _), ← List.map_take, List.take_range,
      Nat.min_eq_left (by omega)] at htake
  refine ⟨⟨h.serviceOpen, h.consistent.inputStream, h.handled⟩,
    ⟨h.consistent.locatorOpen, h.consistent.answers, horigins, h.consistent.posts⟩, ?_⟩
  intro hservice hlocator
  have hperm := h.consistent.answers.map Answer.origin
  rw [hlocator, List.append_nil, ← hposts, horigins] at hperm
  rw [hservice, List.length_nil, Nat.add_zero] at hlen
  rw [← hlen]
  simpa [List.filterMap_map, Function.comp_def] using hperm.filterMap id

/-- Two requests, whose answers arrive the other way round. -/
def twoRequests : List (Event Unit) :=
  [.sendRegistered samplePayload (), .sendRegistered samplePayload (),
    .serve (fun _ => none) samplePayload, .serve (fun _ => none) samplePayload,
    .arrive (fun _ => none) 1, .arrive (fun _ => none) 0]

theorem every_request_answered_sample :
    ∃ s, Runs.run (step crc32Ieee 1) (start sampleServices) twoRequests = some s ∧
      s.posts.length = 2 ∧ (s.posts.map Post.callback).Perm [0, 1] := by
  have hall : (Runs.run (step crc32Ieee 1) (start sampleServices) twoRequests).map
      (fun s => (s.posts.length, s.requests.length, s.toService, s.toLocator.length)) =
        some (2, 2, [], 0) := by decide +kernel
  obtain ⟨s, hrun, hs⟩ := Option.map_eq_some_iff.1 hall
  simp only [Prod.mk.injEq, List.length_eq_zero_iff] at hs
  obtain ⟨hposts, hrequests, hservice, hlocator⟩ := hs
  have hes : ∀ e ∈ twoRequests, IsRequest e := by simp [twoRequests, IsRequest, samplePayload]
  have hids : Runs.Along (step crc32Ieee 1) FreeId (start sampleServices) twoRequests :=
    freeId_along (n := 0) ⟨rfl, fun _ hid => by cases hid⟩ (by decide)
  have h := every_request_answered crc32Ieee 1 rfl hes hids hrun
  have hperm := h.2.2 hservice hlocator
  rw [hrequests] at hperm
  exact ⟨s, hrun, hposts, hperm⟩

end Exchange

end KeycapRoot.Network
