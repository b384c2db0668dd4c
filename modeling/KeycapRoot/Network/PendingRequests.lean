import KeycapRoot.Lib.Runs
import KeycapRoot.Network.ServiceLocator

/-!
# Requests and their callbacks

The callbacks that wait are filed under the counter of the locator at their request. As long as the
counter has not gone round, a new number is in nobody's use (`Numbered`), and so the table says what
it should over whole runs of requests and of chunks from anybody: every request has a number of its
own, and a callback is posted when its entry goes and at no other time (`callbacks_posted_once`).
-/

namespace KeycapRoot.Network

open KeycapRoot.Utility RegisteredMessage

namespace ServiceLocator

variable {ι κ : Type}

/-! ## The numbers of requests -/

/-- The locator has made `n` requests, and only callbacks of these are in its table. -/
structure Numbered (l : ServiceLocator ι κ) (n : Nat) : Prop where
  counter : l.registeredCallbackCounter = UInt64.ofNat n
  below : ∀ id ∈ l.registeredCallbacks, id.toNat < n

/-- Without an entry under the counter, `send_registered` files the callback there. -/
theorem sendRegistered_fst (checksum : Checksum) (type : ServiceType) (message : MemoryStream)
    (ioService : ι) (callback : κ) {l : ServiceLocator ι κ}
    (hfree : l.registeredCallbackCounter ∉ l.registeredCallbacks) :
    (l.sendRegistered checksum type message ioService callback).1 =
      { l with
        registeredCallbackCounter := l.registeredCallbackCounter + 1
        registeredCallbacks := l.registeredCallbacks.insert l.registeredCallbackCounter
          { type, ioService, callback } } := by
  rw [sendRegistered, tryEmplace, if_neg hfree]

namespace Numbered

variable {l : ServiceLocator ι κ} {n : Nat}

theorem toNat_counter (h : Numbered l n) (hn : n < 2 ^ 64) :
    l.registeredCallbackCounter.toNat = n := by
  rw [h.counter]
  exact UInt64.toNat_ofNat_of_lt' hn

/-- The next number is free. -/
theorem free (h : Numbered l n) (hn : n < 2 ^ 64) :
    l.registeredCallbackCounter ∉ l.registeredCallbacks := by
  intro hmem
  have hlt := h.below _ hmem
  rw [h.toNat_counter hn] at hlt
  exact Nat.lt_irrefl n hlt

theorem sendRegistered (h : Numbered l n) (hn : n < 2 ^ 64) (checksum : Checksum)
    (type : ServiceType) (message : MemoryStream) (ioService : ι) (callback : κ) :
    Numbered (l.sendRegistered checksum type message ioService callback).1 (n + 1) := by
  rw [sendRegistered_fst checksum type message ioService callback (h.free hn)]
  constructor
  · change l.registeredCallbackCounter + 1 = _
    rw [h.counter, UInt64.ofNat_add]
    rfl
  · intro id hid
    rcases (AList.mem_insert _).1 hid with rfl | hid
    · rw [h.toNat_counter hn]
      exact Nat.lt_succ_self n
    · exact Nat.lt_succ_of_lt (h.below id hid)

theorem forget (h : Numbered l n) (id : UInt64) : Numbered (l.forget id) n where
  counter := h.counter
  below := fun id' hid => h.below id' (AList.mem_erase.1 hid).2

end Numbered

/-! ## Runs -/

/-- What happens to a locator. A chunk can hold anything and come from any service. -/
inductive Event (ι κ : Type)
  | sendRegistered (type : ServiceType) (message : MemoryStream) (ioService : ι) (callback : κ)
  | onData (beyond : Beyond) (service : ServiceType) (data : List UInt8)

/-- A locator with the ids of its requests so far and all that it has posted. Each callback carries
the place of its request among the ids. -/
structure History (ι κ : Type) where
  locator : ServiceLocator ι (Nat × κ)
  ids : List UInt64 := []
  posts : List (Post ι (Nat × κ)) := []

namespace History

/-- A locator that has made no request yet. -/
def start (services : AList fun _ : ServiceType => Service) : History ι κ where
  locator := { services }

/-- The requests whose callbacks have been posted. -/
def posted (s : History ι κ) : List Nat := s.posts.map fun post => post.callback.1

theorem posted_append (s : History ι κ) (locator : ServiceLocator ι (Nat × κ))
    (posts : List (Post ι (Nat × κ))) :
    posted { s with locator, posts := s.posts ++ posts } =
      s.posted ++ posts.map fun post => post.callback.1 := List.map_append

section Step

variable (checksum : Checksum)

/-- One call. A call of `on_data` that fails leaves the locator as it is then. -/
def step (s : History ι κ) : Event ι κ → Option (History ι κ)
  | .sendRegistered type message ioService callback =>
    some { s with
      locator := (s.locator.sendRegistered checksum type message ioService
        (s.ids.length, callback)).1
      ids := s.ids ++ [s.locator.registeredCallbackCounter] }
  | .onData beyond service data =>
    match s.locator.onData beyond checksum service data with
    | .ok (_, posts) locator => some { s with locator, posts := s.posts ++ posts }
    | .error _ locator => some { s with locator }

end Step

/-- The table and the ids as they are while the counter has not gone round. -/
structure Sound (s : History ι κ) : Prop where
  numbered : Numbered s.locator s.ids.length
  ids : s.ids.map UInt64.toNat = List.range s.ids.length
  pending : ∀ id container, s.locator.registeredCallbacks.lookup id = some container →
    container.callback.1 = id.toNat ∧ id.toNat ∉ s.posted
  once : s.posted.Nodup
  made : ∀ n ∈ s.posted, n < s.ids.length

theorem sound_start (services : AList fun _ : ServiceType => Service) :
    Sound (start services : History ι κ) where
  numbered := ⟨rfl, fun _ hid => by cases hid⟩
  ids := rfl
  pending := fun _ _ h => by cases h
  once := List.nodup_nil
  made := fun _ h => by cases h

theorem Sound.sendRegistered {s s' : History ι κ} (h : Sound s) (hn : s.ids.length < 2 ^ 64)
    {checksum : Checksum} {type : ServiceType} {message : MemoryStream} {ioService : ι}
    {callback : κ}
    (hstep : step checksum s (.sendRegistered type message ioService callback) = some s') :
    Sound s' := by
  have hnum := h.numbered.sendRegistered hn checksum type message ioService
    (s.ids.length, callback)
  have hcounter := h.numbered.toNat_counter hn
  cases hstep
  constructor
  · rwa [List.length_append, List.length_singleton]
  · rw [List.map_append, h.ids, List.length_append, List.length_singleton, List.range_succ,
      List.map_singleton, hcounter]
  · intro id container hlook
    rw [sendRegistered_fst _ _ _ _ _ (h.numbered.free hn)] at hlook
    rcases lookup_insert_cases hlook with ⟨rfl, rfl⟩ | ⟨-, hold⟩
    · -- the new entry: its request has not been answered, since it is later than all that were
      refine ⟨hcounter.symm, ?_⟩
      intro hposted
      rw [hcounter] at hposted
      exact Nat.lt_irrefl _ (h.made _ hposted)
    · exact h.pending id container hold
  · exact h.once
  · intro n hn'
    rw [List.length_append]
    exact Nat.lt_add_right _ (h.made n hn')

theorem Sound.onData {s s' : History ι κ} (h : Sound s) {checksum : Checksum} {beyond : Beyond}
    {service : ServiceType} {data : List UInt8}
    (hstep : step checksum s (.onData beyond service data) = some s') : Sound s' := by
  rw [step] at hstep
  rcases onData_cases beyond service checksum data s.locator with
    ⟨-, container, hlook, hon⟩ | ⟨ret, hon⟩ | ⟨e, hon⟩
  · -- the callback is posted: its entry goes, and so it cannot be posted again
    rw [hon] at hstep
    cases hstep
    obtain ⟨hcallback, hnew⟩ := h.pending _ _ hlook
    have hposted := posted_append s (s.locator.forget (parse data).sender)
      [postOf container data]
    have hnumber : (postOf container data).callback.1 = (parse data).sender.toNat := hcallback
    rw [List.map_singleton, hnumber] at hposted
    constructor
    · exact h.numbered.forget _
    · exact h.ids
    · intro id c hc
      obtain ⟨hid, hother⟩ := lookup_of_forget hc
      obtain ⟨hcid, hold⟩ := h.pending id c hother
      refine ⟨hcid, ?_⟩
      intro hmem
      rw [hposted, List.mem_append, List.mem_singleton, UInt64.toNat_inj] at hmem
      exact hmem.elim hold hid
    · rw [hposted]
      exact List.nodup_append.2 ⟨h.once, List.nodup_singleton _, fun a ha b hb hab => by
        rw [List.mem_singleton] at hb
        exact hnew (hb ▸ hab ▸ ha)⟩
    · intro n hmem
      rw [hposted, List.mem_append, List.mem_singleton] at hmem
      rcases hmem with hold | rfl
      · exact h.made n hold
      · exact h.numbered.below _ (AList.lookup_isSome.1 (by rw [hlook]; rfl))
  · rw [hon] at hstep
    cases hstep
    rw [List.append_nil]
    exact h
  · rw [hon] at hstep
    cases hstep
    exact h

theorem Sound.step {s s' : History ι κ} (h : Sound s) (hn : s'.ids.length < 2 ^ 64)
    {checksum : Checksum} {e : Event ι κ} (hstep : History.step checksum s e = some s') :
    Sound s' := by
  cases e with
  | sendRegistered type message ioService callback =>
    have hlen : s'.ids.length = s.ids.length + 1 := by
      cases hstep
      exact List.length_append
    exact h.sendRegistered (by omega) hstep
  | onData beyond service data => exact h.onData hstep

theorem length_ids_step {s s' : History ι κ} {checksum : Checksum} {e : Event ι κ}
    (hstep : History.step checksum s e = some s') : s.ids.length ≤ s'.ids.length := by
  cases e with
  | sendRegistered type message ioService callback =>
    cases hstep
    exact List.length_append ▸ Nat.le_add_right _ _
  | onData beyond service data =>
    rw [History.step] at hstep
    split at hstep <;>
    · cases hstep
      exact Nat.le_refl _

theorem sound_of_run {checksum : Checksum} {services : AList fun _ : ServiceType => Service}
    {es : List (Event ι κ)} {s : History ι κ}
    (hrun : Runs.run (History.step checksum) (start services) es = some s)
    (hfew : s.ids.length < 2 ^ 64) : Sound s := by
  have hstep : ∀ (s : History ι κ) (e : Event ι κ) (s' : History ι κ),
      (s.ids.length < 2 ^ 64 → Sound s) → History.step checksum s e = some s' →
      s'.ids.length < 2 ^ 64 → Sound s' := by
    intro s e s' h hs hn
    exact (h (Nat.lt_of_le_of_lt (length_ids_step hs) hn)).step hn hs
  exact Runs.run_invariant hstep (fun _ => sound_start services) hrun hfew

theorem Sound.nodup_ids {s : History ι κ} (h : Sound s) : s.ids.Nodup := by
  apply List.Nodup.of_map UInt64.toNat
  rw [h.ids]
  exact List.nodup_range

theorem Sound.lt_counter {s : History ι κ} (h : Sound s) (hn : s.ids.length < 2 ^ 64)
    {id : UInt64} (hid : id ∈ s.ids) : id < s.locator.registeredCallbackCounter := by
  have hmem : id.toNat ∈ s.ids.map UInt64.toNat := List.mem_map_of_mem hid
  rw [h.ids, List.mem_range] at hmem
  rwa [UInt64.lt_iff_toNat_lt, h.numbered.toNat_counter hn]

/-- An entry belongs to the request that was given its id. -/
theorem Sound.request_of_pending {s : History ι κ} (h : Sound s) {id : UInt64}
    {container : RegisteredCallbackContainer ι (Nat × κ)}
    (hlook : s.locator.registeredCallbacks.lookup id = some container) :
    s.ids[container.callback.1]? = some id := by
  have hlt := h.numbered.below id (AList.lookup_isSome.1 (by rw [hlook]; rfl))
  have hget : (s.ids.map UInt64.toNat)[id.toNat]? = some id.toNat := by
    rw [h.ids, List.getElem?_range hlt]
  rw [List.getElem?_map, Option.map_eq_some_iff] at hget
  obtain ⟨id', hid', heq⟩ := hget
  rw [(h.pending id container hlook).1, hid', UInt64.toNat_inj.1 heq]

end History

/-- A call posts the callback of one entry and drops the entry, or it posts nothing and leaves the
table as it is. -/
def PostsOneOrNone (l : ServiceLocator ι κ) :
    Outcome (ServiceLocator ι κ) (Bool × List (Post ι κ)) → Prop
  | .ok (_, posts) t =>
    (∃ id container payload, l.registeredCallbacks.lookup id = some container ∧
      posts = [{ ioService := container.ioService, callback := container.callback,
                 sender := container.type, payload }] ∧
      t.registeredCallbacks = l.registeredCallbacks.erase id) ∨
    (posts = [] ∧ t.registeredCallbacks = l.registeredCallbacks)
  | .error _ t => t.registeredCallbacks = l.registeredCallbacks

theorem postsOneOrNone_onData (beyond : Beyond) (checksum : Checksum) (service : ServiceType)
    (data : List UInt8) (l : ServiceLocator ι κ) :
    PostsOneOrNone l (l.onData beyond checksum service data) := by
  rcases onData_cases beyond service checksum data l with
    ⟨-, container, hlook, hon⟩ | ⟨ret, hon⟩ | ⟨e, hon⟩
  · rw [hon]
    exact Or.inl ⟨_, container, _, hlook, rfl, rfl⟩
  · rw [hon]
    exact Or.inr ⟨rfl, rfl⟩
  · rw [hon]
    exact rfl

/-- **Callbacks.** After every run with fewer than 2^64 requests the ids of the requests are
distinct and below the counter, each entry is the one of the request that was given its id, no
request's callback has been posted twice, and the next chunk, whatever it holds, posts the callback
of one entry that it drops or leaves the table alone. -/
theorem callbacks_posted_once (checksum : Checksum)
    (services : AList fun _ : ServiceType => Service) {es : List (Event ι κ)} {s : History ι κ}
    (hrun : Runs.run (History.step checksum) (History.start services) es = some s)
    (hfew : s.ids.length < 2 ^ 64) :
    s.ids.Nodup ∧ (∀ id ∈ s.ids, id < s.locator.registeredCallbackCounter) ∧
      (∀ id container, s.locator.registeredCallbacks.lookup id = some container →
        s.ids[container.callback.1]? = some id) ∧
      s.posted.Nodup ∧
      ∀ beyond service data,
        PostsOneOrNone s.locator (s.locator.onData beyond checksum service data) := by
  have h := History.sound_of_run hrun hfew
  exact ⟨h.nodup_ids, fun id hid => h.lt_counter hfew hid, fun id container hlook =>
    h.request_of_pending hlook, h.once, fun beyond service data =>
    postsOneOrNone_onData beyond checksum service data s.locator⟩

/-- The frame of an answer to the second request. -/
def secondAnswer : List UInt8 :=
  SentMessage.frame crc32Ieee
    { sender := 1, command := .request, payload := .ofBytes [9, 8, 7, 6] (by decide) }

/-- Two requests, an answer to the second one and the same answer again. -/
def sampleEvents : List (Event Unit Unit) :=
  [.sendRegistered 1 (.ofBytes [1, 2]) () (), .sendRegistered 1 (.ofBytes [1, 2]) () (),
    .onData (fun _ => none) 1 secondAnswer, .onData (fun _ => none) 1 secondAnswer]

theorem callbacks_posted_once_sample :
    ∃ s, Runs.run (History.step crc32Ieee) (History.start ∅) sampleEvents = some s ∧
      s.posted = [1] ∧ s.ids.length = 2 ∧ s.ids.Nodup ∧
      ∀ id ∈ s.ids, id < s.locator.registeredCallbackCounter := by
  have hend : (Runs.run (History.step crc32Ieee) (History.start ∅) sampleEvents).map
      (fun s => (s.posted, s.ids.length)) = some ([1], 2) := by decide +kernel
  obtain ⟨s, hrun, hs⟩ := Option.map_eq_some_iff.1 hend
  obtain ⟨hposted, htwo⟩ := Prod.mk.inj hs
  have hall := callbacks_posted_once crc32Ieee ∅ hrun (by rw [htwo]; decide)
  exact ⟨s, hrun, hposted, htwo, hall.1, hall.2.1⟩

end ServiceLocator

end KeycapRoot.Network
