import KeycapRoot.Network.ServiceLocator

/-!
# Delivering an answer in chunks

Unlike a service connection, the locator keeps nothing of a chunk: `on_data` reads each chunk from
a stream of its own. So an answer reaches its callback when its frame comes in one chunk, and is
lost when it is cut anywhere (`delivers_iff`). The exception is an answer inside an answer: a caller
that has read a part of a payload sends that part too, ahead of the rest, and if it is the header of
an answer with the rest for its payload then a cut in front of it uncovers this one.
-/

namespace KeycapRoot.Network

open KeycapRoot.Utility RegisteredMessage

namespace ServiceLocator

variable {ι κ : Type}

section Chunks

variable (checksum : Checksum) (service : ServiceType)

/-- The chunk declares more than it has. -/
def Waits (data : List UInt8) : Prop := 8 ≤ data.length ∧ data.length < declared data

theorem onData_of_waits (beyond : Beyond) {data : List UInt8} (h : Waits data)
    (l : ServiceLocator ι κ) :
    l.onData beyond checksum service data = .ok (true, []) l := by
  have hcan := canDecode_eq beyond (s := .ofBytes data) h.1
  rw [MemoryStream.unread_ofBytes, decide_eq_false (Nat.not_le.2 h.2)] at hcan
  rw [onData, hcan]

/-- Where reads behind the buffer trap, a chunk that is accepted and posts nothing waits. -/
theorem waits_of_onData {data : List UInt8} (hne : data ≠ []) {l t : ServiceLocator ι κ}
    (h : l.onData (fun _ => none) checksum service data = .ok (true, []) t) :
    Waits data ∧ t = l := by
  have hpos : 0 < data.length := List.length_pos_iff.2 hne
  by_cases h8 : 8 ≤ data.length
  · rw [onData, canDecode_eq _ (s := .ofBytes data) h8, MemoryStream.unread_ofBytes] at h
    by_cases hdecl : declared data ≤ data.length
    · rw [decide_eq_true hdecl] at h
      cases hdec : RegisteredMessage.decode (fun _ => none) (.ofBytes data) with
      | error e s => simp [hdec] at h
      | ok msg s =>
        simp only [hdec] at h
        split at h
        · cases h
        · split at h <;> cases h
    · rw [decide_eq_false hdecl] at h
      cases h
      exact ⟨⟨h8, Nat.lt_of_not_le hdecl⟩, rfl⟩
  · rw [onData, canDecode_undefined (s := .ofBytes data) hpos (Nat.lt_of_not_le h8)] at h
    cases h

variable {checksum service} {l t : ServiceLocator ι κ} {chunks : List (List UInt8)}

theorem accepts_of_waits (beyond : Beyond) (h : ∀ c ∈ chunks, Waits c) :
    Outcome.Accepts (fun c l => l.onData beyond checksum service c) l chunks [] l := by
  induction chunks with
  | nil => exact Outcome.accepts_nil.2 ⟨rfl, rfl⟩
  | cons c chunks ih =>
    obtain ⟨hc, hchunks⟩ := List.forall_mem_cons.1 h
    exact Outcome.accepts_cons.2
      ⟨[], [], l, onData_of_waits checksum service beyond hc l, ih hchunks, rfl⟩

theorem waits_of_accepts (hne : ∀ c ∈ chunks, c ≠ [])
    (h : Outcome.Accepts (fun c l => l.onData (fun _ => none) checksum service c) l chunks [] t) :
    (∀ c ∈ chunks, Waits c) ∧ t = l := by
  induction chunks generalizing l with
  | nil => exact ⟨by simp, (Outcome.accepts_nil.1 h).2⟩
  | cons c chunks ih =>
    obtain ⟨hc, hchunks⟩ := List.forall_mem_cons.1 hne
    obtain ⟨first, rest, l₁, hon, hrest, hdone⟩ := Outcome.accepts_cons.1 h
    obtain ⟨rfl, rfl⟩ := List.append_eq_nil_iff.1 hdone.symm
    obtain ⟨hw, rfl⟩ := waits_of_onData checksum service hc hon
    obtain ⟨hws, rfl⟩ := ih hchunks hrest
    exact ⟨List.forall_mem_cons.2 ⟨hw, hws⟩, rfl⟩

/-- One post comes from one chunk, and the others wait. -/
theorem answer_of_accepts (hne : ∀ c ∈ chunks, c ≠ []) {post : Post ι κ}
    (h : Outcome.Accepts (fun c l => l.onData (fun _ => none) checksum service c) l chunks
      [post] t) :
    ∃ front answer back container, chunks = front ++ answer :: back ∧
      (∀ c ∈ front ++ back, Waits c) ∧ IsAnswer checksum answer ∧
      l.registeredCallbacks.lookup (parse answer).sender = some container ∧
      post = postOf container answer ∧ t = l.forget (parse answer).sender := by
  induction chunks with
  | nil => simp [Outcome.accepts_nil] at h
  | cons c chunks ih =>
    obtain ⟨hc, hchunks⟩ := List.forall_mem_cons.1 hne
    obtain ⟨first, rest, l₁, hon, hrest, hdone⟩ := Outcome.accepts_cons.1 h
    rcases onData_cases (fun _ => none) service checksum c l with
      ⟨hans, container, hlook, hpost⟩ | ⟨ret, hnone⟩ | ⟨e, herr⟩
    · rw [hpost] at hon
      cases hon
      obtain ⟨rfl, hnil⟩ := List.cons.inj hdone
      cases hnil
      obtain ⟨hws, rfl⟩ := waits_of_accepts hchunks hrest
      exact ⟨[], c, chunks, container, rfl, hws, hans, hlook, rfl, rfl⟩
    · rw [hnone] at hon
      cases hon
      obtain ⟨hw, -⟩ := waits_of_onData checksum service hc hnone
      cases hdone
      obtain ⟨front, answer, back, container, rfl, hws, hans⟩ := ih hchunks hrest
      exact ⟨c :: front, answer, back, container, rfl, List.forall_mem_cons.2 ⟨hw, hws⟩, hans⟩
    · rw [herr] at hon
      cases hon

end Chunks

/-! ## Delivery -/

section Delivery

variable (checksum : Checksum) (service : ServiceType)

/-- What the locator owes a pending request, whatever lies behind its buffers: it accepts every
chunk, posts the callback once, with the payload given, and drops the entry. -/
def Delivers (l : ServiceLocator ι κ) (id : UInt64)
    (container : RegisteredCallbackContainer ι κ) (payload : List UInt8)
    (chunks : List (List UInt8)) : Prop :=
  ∀ beyond, Outcome.Accepts (fun c l => l.onData beyond checksum service c) l chunks
    [{ ioService := container.ioService, callback := container.callback,
       sender := container.type, payload := .ofBytes payload }] (l.forget id)

/-- One of the chunks is an answer to the request with the payload, and the others wait. -/
def AnswerAmong (id : UInt64) (payload : List UInt8) (chunks : List (List UInt8)) : Prop :=
  ∃ front answer back, chunks = front ++ answer :: back ∧ (∀ c ∈ front ++ back, Waits c) ∧
    IsAnswer checksum answer ∧ (parse answer).sender = id ∧ answer.drop 22 = payload

variable {checksum service} {l : ServiceLocator ι κ} {id : UInt64}
  {container : RegisteredCallbackContainer ι κ} {chunks : List (List UInt8)}

theorem delivers_iff_answerAmong (hpending : l.registeredCallbacks.lookup id = some container)
    (hne : ∀ c ∈ chunks, c ≠ []) {payload : List UInt8} :
    Delivers checksum service l id container payload chunks ↔
      AnswerAmong checksum id payload chunks := by
  constructor
  · intro h
    obtain ⟨front, answer, back, container', rfl, hws, hans, hlook, hpost, hforget⟩ :=
      answer_of_accepts hne (h fun _ => none)
    refine ⟨front, answer, back, rfl, hws, hans, ?_,
      (congrArg (fun post : Post ι κ => post.payload.buffer) hpost).symm⟩
    -- only the entry of the request is gone
    by_contra hid
    have hlook' := congrArg (fun l : ServiceLocator ι κ => l.registeredCallbacks.lookup id) hforget
    change (l.registeredCallbacks.erase id).lookup id =
      (l.registeredCallbacks.erase (parse answer).sender).lookup id at hlook'
    rw [AList.lookup_erase, AList.lookup_erase_ne (fun h => hid h.symm), hpending] at hlook'
    cases hlook'
  · rintro ⟨front, answer, back, rfl, hws, hans, rfl, rfl⟩ beyond
    have hon := onData_of_isAnswer beyond service hans l
    rw [hpending] at hon
    induction front with
    | nil => exact Outcome.accepts_cons.2 ⟨_, [], _, hon, accepts_of_waits beyond hws, rfl⟩
    | cons c front ih =>
      obtain ⟨hw, hws⟩ := List.forall_mem_cons.1 hws
      exact Outcome.accepts_cons.2 ⟨[], _, l, onData_of_waits checksum service beyond hw l,
        ih (fun c h => hne c (List.mem_cons_of_mem _ h)) hws, rfl⟩

/-- Among the chunks of a fresh answer only the whole frame is an answer with its payload. -/
theorem answerAmong_iff_of_fresh {m : SentMessage} (hfresh : m.payload.Fresh)
    (hne : ∀ c ∈ chunks, c ≠ []) (hcut : chunks.flatten = m.frame checksum) :
    AnswerAmong checksum m.sender m.payload.bytes chunks ↔ chunks.length = 1 := by
  constructor
  · rintro ⟨front, answer, back, rfl, -, ⟨hlen, -, -⟩, -, hdrop⟩
    -- the answer is as long as the frame, which leaves nothing for the other chunks
    have hpayload := congrArg List.length hdrop
    have htotal := congrArg List.length hcut
    rw [List.length_drop] at hpayload
    rw [m.length_frame_of_fresh checksum hfresh, List.flatten_append, List.flatten_cons,
      List.length_append, List.length_append] at htotal
    have hempty : ∀ cs : List (List UInt8), (∀ c ∈ cs, c ≠ []) → cs.flatten.length = 0 →
        cs = [] := by
      intro cs hcs h0
      cases cs with
      | nil => rfl
      | cons c cs =>
        rw [List.length_eq_zero_iff, List.flatten_cons, List.append_eq_nil_iff] at h0
        exact absurd h0.1 (hcs c List.mem_cons_self)
    rw [hempty front (fun c h => hne c (by simp [h])) (by omega),
      hempty back (fun c h => hne c (by simp [h])) (by omega)]
    rfl
  · intro h1
    obtain ⟨c, rfl⟩ := List.length_eq_one_iff.1 h1
    rw [List.flatten_singleton] at hcut
    subst hcut
    exact ⟨[], _, [], rfl, by simp, isAnswer_frame hfresh, m.sender_parse_frame checksum,
      by rw [m.drop_frame, hfresh.buffer]⟩

/-- **Delivery.** The chunks of an answer deliver it if and only if it is sent from a fresh payload
and comes in one chunk, or the read part of its payload is the header of another such answer that
the cuts uncover. -/
theorem delivers_iff (checksum : Checksum) (service : ServiceType) {l : ServiceLocator ι κ}
    {id : UInt64} {container : RegisteredCallbackContainer ι κ} (payload : Payload)
    {chunks : List (List UInt8)}
    (hpending : l.registeredCallbacks.lookup id = some container) (hne : ∀ c ∈ chunks, c ≠ [])
    (hcut : chunks.flatten = ServiceConnection.sendAnswer checksum id payload.stream) :
    Delivers checksum service l id container payload.bytes chunks ↔
      (payload.Fresh ∧ chunks.length = 1) ∨
        (¬ payload.Fresh ∧ AnswerAmong checksum id payload.bytes chunks) := by
  rw [ServiceConnection.sendAnswer_eq_frame] at hcut
  rw [delivers_iff_answerAmong hpending hne]
  by_cases hfresh : payload.Fresh
  · rw [answerAmong_iff_of_fresh (m := { sender := id, command := .request, payload }) hfresh hne
      hcut]
    simp [hfresh]
  · simp [hfresh]

/-- A locator that waits for the answer to its first request. -/
def pendingSample : ServiceLocator Unit Nat where
  registeredCallbackCounter := 1
  registeredCallbacks := tryEmplace ∅ 0 { type := 1, ioService := (), callback := 5 }

/-- The answer `1 2` to that request. -/
def sampleAnswer : List UInt8 := ServiceConnection.sendAnswer crc32Ieee 0 (.ofBytes [1, 2])

theorem delivers_iff_sample :
    Delivers crc32Ieee 1 pendingSample 0 { type := 1, ioService := (), callback := 5 } [1, 2]
      [sampleAnswer] :=
  (delivers_iff crc32Ieee 1 (.ofBytes [1, 2] (by decide)) rfl (by decide +kernel)
    (List.append_nil _)).2 (Or.inl ⟨rfl, rfl⟩)

/-- The answer in two chunks, cut behind its length, does not reach the callback. -/
theorem cut_answer_not_delivered :
    let container : RegisteredCallbackContainer Unit Nat :=
      { type := 1, ioService := (), callback := 5 }
    let chunks := [sampleAnswer.take 10, sampleAnswer.drop 10]
    pendingSample.registeredCallbacks.lookup 0 = some container ∧ (∀ c ∈ chunks, c ≠ []) ∧
      chunks.flatten = sampleAnswer ∧
      ¬ Delivers crc32Ieee 1 pendingSample 0 container [1, 2] chunks := by
  have hne : ∀ c ∈ [sampleAnswer.take 10, sampleAnswer.drop 10], c ≠ [] := by decide +kernel
  have hcut : [sampleAnswer.take 10, sampleAnswer.drop 10].flatten = sampleAnswer := by simp
  refine ⟨rfl, hne, hcut, ?_⟩
  intro h
  let m : SentMessage :=
    { sender := 0, command := .request, payload := .ofBytes [1, 2] (by decide) }
  rw [delivers_iff_answerAmong rfl hne] at h
  have hone := (answerAmong_iff_of_fresh (m := m) rfl hne
    (hcut.trans (ServiceConnection.sendAnswer_eq_frame crc32Ieee 0 m.payload))).1 h
  exact absurd hone (by decide)

end Delivery

end ServiceLocator

end KeycapRoot.Network
