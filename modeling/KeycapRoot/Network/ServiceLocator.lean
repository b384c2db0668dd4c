import Mathlib.Data.List.AList
import KeycapRoot.Network.ServiceConnection

/-!
# The service locator

A locator sends messages to services and keeps, under a running number, the callback of each request
that waits for an answer. `send_to` and `send_registered` return what is passed to the `send` of a
connection, if the service has a live one. `on_data` looks at each chunk for itself: whatever it is
given, it posts one callback and drops its entry, or posts none and changes nothing
(`onData_cases`).

`ι` is the type of the `io_service` references and `κ` that of the callbacks.
-/

namespace KeycapRoot.Network

open LittleEndian LittleEndian.Scalar KeycapRoot.Utility RegisteredMessage

/-- What the locator knows of a service: the connection its weak pointer leads to, if it lives. -/
structure Service where
  connection : Option Nat := none
  deriving DecidableEq, Repr

structure RegisteredCallbackContainer (ι κ : Type) where
  type : ServiceType
  ioService : ι
  callback : κ
  deriving DecidableEq, Repr

/-- A callback posted to an `io_service`, with the arguments it is called with. -/
structure Post (ι κ : Type) where
  ioService : ι
  callback : κ
  sender : ServiceType
  payload : MemoryStream
  deriving DecidableEq, Repr

structure ServiceLocator (ι κ : Type) where
  services : AList fun _ : ServiceType => Service := ∅
  registeredCallbackCounter : UInt64 := 0
  registeredCallbacks : AList fun _ : UInt64 => RegisteredCallbackContainer ι κ := ∅

namespace ServiceLocator

variable {ι κ : Type}

/-- `try_emplace` of a map: an entry that is there stays. -/
def tryEmplace {α β : Type} [DecidableEq α] (m : AList fun _ : α => β) (a : α) (b : β) :
    AList fun _ : α => β :=
  if a ∈ m then m else m.insert a b

section Lookup

variable {α β : Type} [DecidableEq α] {m : AList fun _ : α => β} {a a' : α} {b b' : β}

/-- What is found after an insertion is the new entry, or an old one under another key. -/
theorem lookup_insert_cases (h : (m.insert a b).lookup a' = some b') :
    (a' = a ∧ b' = b) ∨ a' ≠ a ∧ m.lookup a' = some b' := by
  by_cases ha : a' = a
  · subst ha
    rw [AList.lookup_insert] at h
    exact Or.inl ⟨rfl, (Option.some.inj h).symm⟩
  · rw [AList.lookup_insert_ne ha] at h
    exact Or.inr ⟨ha, h⟩

theorem lookup_tryEmplace_cases (h : (tryEmplace m a b).lookup a' = some b') :
    (a ∉ m ∧ a' = a ∧ b' = b) ∨ m.lookup a' = some b' := by
  unfold tryEmplace at h
  split at h
  · exact Or.inr h
  · next hfree =>
    rcases lookup_insert_cases h with hnew | hold
    · exact Or.inl ⟨hfree, hnew⟩
    · exact Or.inr hold.2

end Lookup

/-- What `locate` does to the services: one that is there stays, and a new one has no connection. -/
def locate (l : ServiceLocator ι κ) (type : ServiceType) : ServiceLocator ι κ :=
  { l with services := tryEmplace l.services type {} }

/-- `make_handler` of a service of the locator: its weak pointer leads to the new connection. -/
def makeHandler (l : ServiceLocator ι κ) (type : ServiceType) (conn : Nat) : ServiceLocator ι κ :=
  { l with services := l.services.insert type { connection := some conn } }

/-- `send_to_(type, message)`: the connection and the bytes it is given to send. -/
def sendTo_ (l : ServiceLocator ι κ) (type : ServiceType) (message : MemoryStream) :
    Option (Nat × List UInt8) :=
  match l.services.lookup type with
  | none => none
  | some service =>
    match service.connection with
    | some conn => some (conn, message.toSpan)
    | none => none

section Send

variable (checksum : Checksum)

/-- `send_to(type, message)`. -/
def sendTo (l : ServiceLocator ι κ) (type : ServiceType) (message : MemoryStream) :
    Option (Nat × List UInt8) :=
  let msg : RegisteredMessage := {
    crc := crc32 checksum
      [hash (0 : UInt64), hash RegisteredCommand.update, hashStream message]
    sender := 0
    command := .update
    payload := message }
  l.sendTo_ type msg.encode

/-- `send_registered(type, message, io_service, callback)`. -/
def sendRegistered (l : ServiceLocator ι κ) (type : ServiceType) (message : MemoryStream)
    (ioService : ι) (callback : κ) : ServiceLocator ι κ × Option (Nat × List UInt8) :=
  let counter := l.registeredCallbackCounter
  let l := { l with
    registeredCallbackCounter := counter + 1
    registeredCallbacks := tryEmplace l.registeredCallbacks counter { type, ioService, callback } }
  let msg : RegisteredMessage := {
    crc := crc32 checksum [hash counter, hash RegisteredCommand.request, hashStream message]
    sender := counter
    command := .request
    payload := message }
  (l, l.sendTo_ type msg.encode)

/-- What is sent goes to the connection of the service. -/
theorem lookup_of_sendRegistered {l : ServiceLocator ι κ} {type : ServiceType}
    {message : MemoryStream} {ioService : ι} {callback : κ} {conn : Nat} {frame : List UInt8}
    (h : (l.sendRegistered checksum type message ioService callback).2 = some (conn, frame)) :
    l.services.lookup type = some { connection := some conn } := by
  change (sendTo_ _ type _) = some (conn, frame) at h
  unfold sendTo_ at h
  split at h
  · cases h
  · next service hlook =>
    split at h
    · next conn' hconn =>
      cases h
      rw [← hconn]
      exact hlook
    · cases h

/-! ## What is sent -/

variable {l : ServiceLocator ι κ} {type : ServiceType} {conn : Nat}

/-- A live connection is given the bytes of the stream. -/
theorem sendTo_eq_of_live (hlive : l.services.lookup type = some { connection := some conn })
    (message : MemoryStream) : l.sendTo_ type message = some (conn, message.toSpan) := by
  rw [sendTo_, hlive]

theorem exists_sent_of_live (hlive : l.services.lookup type = some { connection := some conn })
    (message : MemoryStream) (ioService : ι) (callback : κ) :
    ∃ frame, (l.sendRegistered checksum type message ioService callback).2 = some (conn, frame) :=
  ⟨_, sendTo_eq_of_live (by exact hlive) _⟩

/-- `send_to` sends a message without a sender. -/
theorem sendTo_live (hlive : l.services.lookup type = some { connection := some conn })
    (payload : Payload) :
    l.sendTo checksum type payload.stream =
      some (conn, SentMessage.frame checksum { sender := 0, command := .update, payload }) :=
  sendTo_eq_of_live hlive _

/-- `send_registered` sends a message under the counter. -/
theorem sendRegistered_live (hlive : l.services.lookup type = some { connection := some conn })
    (payload : Payload) (ioService : ι) (callback : κ) :
    (l.sendRegistered checksum type payload.stream ioService callback).2 =
      some (conn, SentMessage.frame checksum
        { sender := l.registeredCallbackCounter, command := .request, payload }) :=
  sendTo_eq_of_live (by exact hlive) _

end Send

/-- `on_data(router, service, data)`. The result is its return value with what it posts. -/
def onData (beyond : Beyond) (checksum : Checksum) (_service : ServiceType) (data : List UInt8)
    (l : ServiceLocator ι κ) : Outcome (ServiceLocator ι κ) (Bool × List (Post ι κ)) :=
  let stream := MemoryStream.ofBytes data
  match canDecode beyond stream with
  | .error e => .error e l
  | .ok false => .ok (true, []) l
  | .ok true =>
    match RegisteredMessage.decode beyond stream with
    | .error e _ => .error e l
    | .ok msg _ =>
      if !validateCrc32 checksum msg.crc
          [hash msg.sender, hash msg.command, hashStream msg.payload] then
        .ok (false, []) l
      else
        match l.registeredCallbacks.lookup msg.sender with
        | none => .ok (false, []) l
        | some container =>
          let post : Post ι κ := {
            ioService := container.ioService
            callback := container.callback
            sender := container.type
            payload := msg.payload }
          .ok (true, [post])
            { l with registeredCallbacks := l.registeredCallbacks.erase msg.sender }

/-! ## Answers -/

section OnData

variable (beyond : Beyond) (checksum : Checksum) (service : ServiceType)

/-- The locator without the entry of a request. -/
def forget (l : ServiceLocator ι κ) (id : UInt64) : ServiceLocator ι κ :=
  { l with registeredCallbacks := l.registeredCallbacks.erase id }

/-- The other entries are those that were there. -/
theorem lookup_of_forget {l : ServiceLocator ι κ} {id id' : UInt64}
    {container : RegisteredCallbackContainer ι κ}
    (h : (l.forget id).registeredCallbacks.lookup id' = some container) :
    id' ≠ id ∧ l.registeredCallbacks.lookup id' = some container := by
  by_cases hid : id' = id
  · subst hid
    rw [forget, AList.lookup_erase] at h
    cases h
  · rw [forget, AList.lookup_erase_ne hid] at h
    exact ⟨hid, h⟩

/-- What is posted for the message that the bytes hold. -/
def postOf (container : RegisteredCallbackContainer ι κ) (bytes : List UInt8) : Post ι κ where
  ioService := container.ioService
  callback := container.callback
  sender := container.type
  payload := (parse bytes).payload

/-- The bytes are an answer that passes the test of its checksum. -/
def IsAnswer (data : List UInt8) : Prop :=
  22 ≤ data.length ∧ declared data ≤ data.length ∧ ServiceConnection.accepts checksum data = true

variable {checksum}

theorem onData_of_isAnswer {data : List UInt8} (h : IsAnswer checksum data)
    (l : ServiceLocator ι κ) :
    l.onData beyond checksum service data =
      match l.registeredCallbacks.lookup (parse data).sender with
      | none => .ok (false, []) l
      | some container => .ok (true, [postOf container data]) (l.forget (parse data).sender) := by
  obtain ⟨hlen, hdecl, hacc⟩ := h
  rw [ServiceConnection.accepts] at hacc
  have hprefix : 8 ≤ data.length := by omega
  have hcan := canDecode_eq beyond (s := .ofBytes data) hprefix
  rw [MemoryStream.unread_ofBytes, decide_eq_true hdecl] at hcan
  rw [onData, hcan, decode_eq beyond (s := .ofBytes data) hlen, MemoryStream.unread_ofBytes]
  simp only [hacc, Bool.not_true, Bool.false_eq_true, if_false]
  cases l.registeredCallbacks.lookup (parse data).sender <;> rfl

/-- A fresh answer is a message that passes the checks. -/
theorem isAnswer_frame {m : SentMessage} (h : m.payload.Fresh) :
    IsAnswer checksum (m.frame checksum) := by
  have hlen := m.length_frame_of_fresh checksum h
  exact ⟨by omega, m.declared_frame_le checksum, ServiceConnection.accepts_frame checksum h⟩

/-- What is not an answer posts nothing and changes nothing. -/
theorem onData_of_not_isAnswer {data : List UInt8} (h : ¬ IsAnswer checksum data)
    (l : ServiceLocator ι κ) :
    (∃ ret, l.onData beyond checksum service data = .ok (ret, []) l) ∨
      ∃ e, l.onData beyond checksum service data = .error e l := by
  rw [onData]
  cases hcan : canDecode beyond (.ofBytes data) with
  | error e => exact Or.inr ⟨e, rfl⟩
  | ok full =>
    cases full with
    | false => exact Or.inl ⟨true, rfl⟩
    | true =>
      cases hdec : RegisteredMessage.decode beyond (.ofBytes data) with
      | error e s => exact Or.inr ⟨e, rfl⟩
      | ok msg s =>
        obtain ⟨hlen, rfl, -⟩ := (decode_eq_ok_iff beyond).1 hdec
        rw [MemoryStream.unread_ofBytes] at hlen
        have hprefix : 8 ≤ data.length := by omega
        rw [canDecode_eq beyond (s := .ofBytes data) hprefix] at hcan
        have hdecl : declared data ≤ data.length := of_decide_eq_true (Except.ok.inj hcan)
        -- a whole message that is no answer fails the test of its checksum
        have hacc : ServiceConnection.accepts checksum data = false := by
          cases hacc : ServiceConnection.accepts checksum data with
          | false => rfl
          | true => exact absurd ⟨hlen, hdecl, hacc⟩ h
        rw [ServiceConnection.accepts] at hacc
        refine Or.inl ⟨false, ?_⟩
        simp only [MemoryStream.unread_ofBytes, hacc, Bool.not_false, if_true]

/-- **One chunk**: an answer to a pending request posts its callback and drops its entry, and
anything else posts nothing and changes nothing. -/
theorem onData_cases (checksum : Checksum) (data : List UInt8) (l : ServiceLocator ι κ) :
    (IsAnswer checksum data ∧ ∃ container,
      l.registeredCallbacks.lookup (parse data).sender = some container ∧
        l.onData beyond checksum service data =
          .ok (true, [postOf container data]) (l.forget (parse data).sender)) ∨
    (∃ ret, l.onData beyond checksum service data = .ok (ret, []) l) ∨
    (∃ e, l.onData beyond checksum service data = .error e l) := by
  by_cases h : IsAnswer checksum data
  · have hon := onData_of_isAnswer beyond service h l
    cases hlook : l.registeredCallbacks.lookup (parse data).sender with
    | none => exact Or.inr (Or.inl ⟨false, by rw [hon, hlook]⟩)
    | some container => exact Or.inl ⟨h, container, rfl, by rw [hon, hlook]⟩
  · exact Or.inr (onData_of_not_isAnswer beyond service h l)

end OnData

end ServiceLocator

end KeycapRoot.Network
