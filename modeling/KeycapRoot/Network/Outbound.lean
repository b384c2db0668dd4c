import Mathlib.Logic.Function.Basic
import KeycapRoot.Network.Connection

/-!
# Routing to the outside

Each connection of a service has a router of its own, and the first outbound handler of that router
is the connection itself. More can be configured, and `route_outbound` sends to each of them that
has not expired, in turn. Whatever is configured and however the steps of the connections are
interleaved, each connection is sent what a broadcast over the registrations hands to it, in that
order; and if nothing more is configured, what is routed by the router of a connection goes to this
connection only (`routed_outbound_in_order`).
-/

namespace KeycapRoot.Network

/-- A connection of a service with the outbound handlers of its router, by their numbers. -/
structure Hosted where
  connection : Connection
  outboundHandlers : List Nat := []
  expired : Bool := false
  deriving DecidableEq, Repr

/-- The connections of a service. -/
structure Hub where
  hosted : List Hosted := []
  deriving DecidableEq, Repr

namespace Hub

/-- `configure_outbound(handler)` of the router of a connection. -/
def configureOutbound (hub : Hub) (i handler : Nat) : Hub where
  hosted := hub.hosted.modify i fun h =>
    { h with outboundHandlers := h.outboundHandlers ++ [handler] }

/-- `handle_new_connection`: the connection becomes an outbound handler of its own router. -/
def handleNewConnection (hub : Hub) (handlers : Nat) : Hub :=
  let handler := hub.hosted.length
  let hub : Hub := { hosted := hub.hosted ++ [{ connection := .handleNewConnection handlers }] }
  hub.configureOutbound handler handler

/-- `handlerPtr.lock()` and `send(data)`. -/
def sendTo (hub : Hub) (data : List UInt8) (handler : Nat) : Hub where
  hosted := hub.hosted.modify handler fun h =>
    if h.expired then h else { h with connection := h.connection.send data }

/-- `route_outbound(data)` of a router with these handlers. -/
def routeOutbound (hub : Hub) (outboundHandlers : List Nat) (data : List UInt8) : Hub :=
  outboundHandlers.foldl (fun hub handler => hub.sendTo data handler) hub

inductive Event
  | handleNewConnection (handlers : Nat)
  | configureOutbound (i handler : Nat)
  | routeOutbound (i : Nat) (data : List UInt8)
  | connection (i : Nat) (e : Connection.Event)
  | expires (i : Nat)

/-- The connection `i`, if it has not expired. -/
def lock (hub : Hub) (i : Nat) : Option Hosted := (hub.hosted[i]?).filter fun h => !h.expired

def step (hub : Hub) : Event → Option Hub
  | .handleNewConnection handlers => some (hub.handleNewConnection handlers)
  | .configureOutbound i handler =>
    if (hub.lock i).isSome ∧ handler < hub.hosted.length then
      some (hub.configureOutbound i handler)
    else none
  | .routeOutbound i data => (hub.lock i).map fun h => hub.routeOutbound h.outboundHandlers data
  | .connection i e =>
    (hub.lock i).bind fun h => (h.connection.step e).map fun c =>
      { hub with hosted := hub.hosted.set i { h with connection := c } }
  | .expires i =>
    (hub.lock i).map fun h => { hub with hosted := hub.hosted.set i { h with expired := true } }

/-! ## Broadcasts -/

/-- Who is registered where, who has expired, and what each one was handed. -/
structure Broadcast where
  size : Nat := 0
  registered : Nat → List Nat := fun _ => []
  expired : Nat → Bool := fun _ => false
  handed : Nat → List (List UInt8) := fun _ => []

/-- Each receiver that is there is handed the data once for each time it is registered. -/
def Broadcast.step (b : Broadcast) : Event → Broadcast
  | .handleNewConnection _ => { b with
      size := b.size + 1
      registered := Function.update b.registered b.size [b.size] }
  | .configureOutbound i handler => { b with
      registered := Function.update b.registered i (b.registered i ++ [handler]) }
  | .routeOutbound i data => { b with
      handed := fun j => b.handed j ++
        if b.expired j then [] else List.replicate ((b.registered i).count j) data }
  | .connection i e => { b with
      handed := Function.update b.handed i (b.handed i ++ Connection.packets [e]) }
  | .expires i => { b with expired := Function.update b.expired i true }

def Broadcast.ofEvents (es : List Event) : Broadcast := es.foldl Broadcast.step {}

/-! ## Sending -/

/-- A connection that is sent packets in turn, unless it has expired. -/
def sent (packets : List (List UInt8)) (h : Hosted) : Hosted :=
  if h.expired then h else { h with connection := packets.foldl Connection.send h.connection }

theorem sent_nil (h : Hosted) : sent [] h = h := by
  rw [sent]
  split <;> rfl

theorem sent_append (front back : List (List UInt8)) (h : Hosted) :
    sent (front ++ back) h = sent back (sent front h) := by
  unfold sent
  by_cases hexpired : h.expired = true
  · rw [if_pos hexpired, if_pos hexpired, if_pos hexpired]
  · rw [if_neg hexpired, if_neg hexpired, if_neg hexpired, List.foldl_append]

theorem sendTo_getElem? (hub : Hub) (data : List UInt8) (handler j : Nat) :
    (hub.sendTo data handler).hosted[j]? =
      (hub.hosted[j]?).map (sent (if handler = j then [data] else [])) := by
  rw [sendTo, List.getElem?_modify]
  by_cases hj : handler = j
  · simp only [if_pos hj]
    rfl
  · simp only [if_neg hj]
    cases hub.hosted[j]? with
    | none => rfl
    | some h => exact congrArg some (sent_nil h).symm

/-- A handler is sent the data as often as it is registered. -/
theorem routeOutbound_getElem? (hub : Hub) (outboundHandlers : List Nat) (data : List UInt8)
    (j : Nat) :
    (hub.routeOutbound outboundHandlers data).hosted[j]? =
      (hub.hosted[j]?).map (sent (List.replicate (outboundHandlers.count j) data)) := by
  induction outboundHandlers generalizing hub with
  | nil =>
    have hnone : sent (List.replicate ([].count j) data) = id := funext sent_nil
    rw [hnone, Option.map_id]
    rfl
  | cons handler outboundHandlers ih =>
    have hcount : List.replicate ((handler :: outboundHandlers).count j) data =
        (if handler = j then [data] else []) ++
          List.replicate (outboundHandlers.count j) data := by
      rw [List.count_cons]
      by_cases hj : handler = j
      · rw [if_pos hj, if_pos (beq_iff_eq.2 hj)]
        rfl
      · rw [if_neg hj, if_neg (mt beq_iff_eq.1 hj)]
        rfl
    change ((hub.sendTo data handler).routeOutbound outboundHandlers data).hosted[j]? = _
    rw [ih, sendTo_getElem?, Option.map_map, hcount]
    congr 1
    exact funext fun h => (sent_append _ _ h).symm

theorem length_routeOutbound (hub : Hub) (outboundHandlers : List Nat) (data : List UInt8) :
    (hub.routeOutbound outboundHandlers data).hosted.length = hub.hosted.length := by
  induction outboundHandlers generalizing hub with
  | nil => rfl
  | cons handler outboundHandlers ih =>
    change ((hub.sendTo data handler).routeOutbound outboundHandlers data).hosted.length = _
    rw [ih, sendTo, List.length_modify]

/-! ## Steps -/

/-- A connection is as the broadcast has it. -/
structure Matches (b : Broadcast) (j : Nat) (h : Hosted) : Prop where
  registered : h.outboundHandlers = b.registered j
  expired : h.expired = b.expired j
  order : Connection.InOrder (b.handed j) h.connection

structure Represents (hub : Hub) (b : Broadcast) : Prop where
  size : hub.hosted.length = b.size
  hosted : ∀ j h, hub.hosted[j]? = some h → Matches b j h
  fresh : ∀ j, b.size ≤ j → b.expired j = false ∧ b.handed j = []
  known : ∀ i, ∀ j ∈ b.registered i, j < b.size

theorem inOrder_foldl {sent packets : List (List UInt8)} {c : Connection}
    (h : Connection.InOrder sent c) :
    Connection.InOrder (sent ++ packets) (packets.foldl Connection.send c) := by
  induction packets generalizing sent c with
  | nil => rwa [List.append_nil]
  | cons packet packets ih =>
    have hnext := ih (h.send packet)
    rwa [List.append_assoc, List.singleton_append] at hnext

variable {hub hub' : Hub} {b : Broadcast}

theorem lock_eq_some {i : Nat} {h : Hosted} :
    hub.lock i = some h ↔ hub.hosted[i]? = some h ∧ h.expired = false := by
  rw [lock, Option.filter_eq_some_iff, Bool.not_eq_true']

theorem Represents.lt_size (hrep : Represents hub b) {i : Nat} {h : Hosted}
    (hi : hub.hosted[i]? = some h) : i < b.size := by
  rw [← hrep.size]
  exact (List.getElem?_eq_some_iff.1 hi).1

theorem Represents.handleNewConnection (hrep : Represents hub b) (handlers : Nat) :
    Represents (hub.handleNewConnection handlers) (b.step (.handleNewConnection handlers)) := by
  constructor
  · change List.length (List.modify _ _ _) = b.size + 1
    rw [List.length_modify, List.length_append, List.length_singleton, hrep.size]
  · intro j h hj
    change (List.modify _ _ _)[j]? = some h at hj
    rw [List.getElem?_modify, Option.map_eq_map, Option.map_eq_some_iff] at hj
    obtain ⟨old, hold, rfl⟩ := hj
    rw [List.getElem?_append] at hold
    split at hold
    · next hless =>
      have hne : j ≠ b.size := by
        rw [← hrep.size]
        exact Nat.ne_of_lt hless
      have hmatches := hrep.hosted j old hold
      rw [if_neg (Nat.ne_of_gt hless)]
      exact ⟨hmatches.registered.trans (Function.update_of_ne hne _ _).symm, hmatches.expired,
        hmatches.order⟩
    · next hge =>
      obtain ⟨hlast, hnew⟩ := List.getElem?_eq_some_iff.1 hold
      rw [List.getElem_singleton] at hnew
      subst hnew
      rw [List.length_singleton] at hlast
      have hj : j = b.size := by
        rw [← hrep.size]
        omega
      obtain ⟨hexpired, hhanded⟩ := hrep.fresh j (Nat.le_of_eq hj.symm)
      rw [if_pos (by rw [hj, hrep.size])]
      refine ⟨?_, hexpired.symm, ?_⟩
      · change [hub.hosted.length] = Function.update b.registered b.size [b.size] j
        rw [hj, Function.update_self, hrep.size]
      · change Connection.InOrder (b.handed j) _
        rw [hhanded]
        exact Connection.inOrder_of_idle rfl (Or.inl rfl)
  · intro j hj
    exact hrep.fresh j (Nat.le_of_succ_le hj)
  · intro i j hj
    change j ∈ Function.update b.registered b.size [b.size] i at hj
    by_cases hi : i = b.size
    · rw [hi, Function.update_self, List.mem_singleton] at hj
      exact Nat.lt_succ_of_le (Nat.le_of_eq hj)
    · rw [Function.update_of_ne hi] at hj
      exact Nat.lt_succ_of_lt (hrep.known i j hj)

theorem Represents.configureOutbound (hrep : Represents hub b) {i handler : Nat}
    (hhandler : handler < hub.hosted.length) :
    Represents (hub.configureOutbound i handler) (b.step (.configureOutbound i handler)) := by
  constructor
  · change List.length (List.modify _ _ _) = b.size
    rw [List.length_modify, hrep.size]
  · intro j h hj
    change (List.modify _ _ _)[j]? = some h at hj
    rw [List.getElem?_modify, Option.map_eq_map, Option.map_eq_some_iff] at hj
    obtain ⟨old, hold, rfl⟩ := hj
    have hmatches := hrep.hosted j old hold
    by_cases hi : i = j
    · rw [if_pos hi]
      refine ⟨?_, hmatches.expired, hmatches.order⟩
      change _ = Function.update b.registered i (b.registered i ++ [handler]) j
      rw [hi, Function.update_self, hmatches.registered]
    · rw [if_neg hi]
      exact ⟨hmatches.registered.trans (Function.update_of_ne (Ne.symm hi) _ _).symm,
        hmatches.expired, hmatches.order⟩
  · exact hrep.fresh
  · intro k j hj
    change j ∈ Function.update b.registered i (b.registered i ++ [handler]) k at hj
    by_cases hk : k = i
    · rw [hk, Function.update_self, List.mem_append, List.mem_singleton] at hj
      rcases hj with hold | rfl
      · exact hrep.known i j hold
      · exact Nat.lt_of_lt_of_eq hhandler hrep.size
    · rw [Function.update_of_ne hk] at hj
      exact hrep.known k j hj

theorem Represents.routeOutbound (hrep : Represents hub b) {i : Nat} {h : Hosted}
    (hi : hub.hosted[i]? = some h) (data : List UInt8) :
    Represents (hub.routeOutbound h.outboundHandlers data) (b.step (.routeOutbound i data)) := by
  have hregistered := (hrep.hosted i h hi).registered
  constructor
  · exact (length_routeOutbound hub _ data).trans hrep.size
  · intro j h' hj
    rw [routeOutbound_getElem?, Option.map_eq_some_iff, hregistered] at hj
    obtain ⟨old, hold, rfl⟩ := hj
    have hmatches := hrep.hosted j old hold
    have horder : Connection.InOrder (b.handed j ++ if b.expired j then [] else
        List.replicate ((b.registered i).count j) data)
        (sent (List.replicate ((b.registered i).count j) data) old).connection := by
      rw [← hmatches.expired, sent]
      by_cases hexpired : old.expired = true
      · rw [if_pos hexpired, if_pos hexpired, List.append_nil]
        exact hmatches.order
      · rw [if_neg hexpired, if_neg hexpired]
        exact inOrder_foldl hmatches.order
    refine ⟨?_, ?_, horder⟩
    · exact Eq.trans (by rw [sent]; split <;> rfl) hmatches.registered
    · exact Eq.trans (by rw [sent]; split <;> rfl) hmatches.expired
  · intro j hj
    obtain ⟨hexpired, hhanded⟩ := hrep.fresh j hj
    refine ⟨hexpired, ?_⟩
    have hnone : (b.registered i).count j = 0 :=
      List.count_eq_zero.2 fun hmem => absurd (hrep.known i j hmem) (Nat.not_lt.2 hj)
    change b.handed j ++ (if b.expired j then [] else _) = []
    rw [hhanded, hexpired, hnone]
    rfl
  · exact hrep.known

/-- One connection changes. -/
theorem Represents.set (hrep : Represents hub b) {i : Nat} {h h' : Hosted} {b' : Broadcast}
    (hi : hub.hosted[i]? = some h) (hsize : b'.size = b.size)
    (hregistered : b'.registered = b.registered) (hmatches : Matches b' i h')
    (hothers : ∀ j, j ≠ i → b'.expired j = b.expired j ∧ b'.handed j = b.handed j) :
    Represents { hub with hosted := hub.hosted.set i h' } b' := by
  have hless := hrep.lt_size hi
  constructor
  · rw [List.length_set, hrep.size, hsize]
  · intro j h'' hj
    by_cases hij : i = j
    · subst hij
      rw [List.getElem?_set_self (by rw [hrep.size]; exact hless)] at hj
      cases hj
      exact hmatches
    · rw [List.getElem?_set_ne hij] at hj
      have hold := hrep.hosted j h'' hj
      obtain ⟨hexpired, hhanded⟩ := hothers j (Ne.symm hij)
      exact ⟨hold.registered.trans (congrFun hregistered j).symm, hold.expired.trans hexpired.symm,
        hhanded ▸ hold.order⟩
  · intro j hj
    rw [hsize] at hj
    obtain ⟨hexpired, hhanded⟩ := hothers j (by omega)
    rw [hexpired, hhanded]
    exact hrep.fresh j hj
  · rw [hregistered, hsize]
    exact hrep.known

theorem Represents.step (hrep : Represents hub b) {e : Event} (hstep : hub.step e = some hub') :
    Represents hub' (b.step e) := by
  cases e with
  | handleNewConnection handlers =>
    cases hstep
    exact hrep.handleNewConnection handlers
  | configureOutbound i handler =>
    rw [Hub.step, Option.ite_none_right_eq_some] at hstep
    obtain ⟨⟨-, hhandler⟩, hgoes⟩ := hstep
    cases hgoes
    exact hrep.configureOutbound hhandler
  | routeOutbound i data =>
    rw [Hub.step, Option.map_eq_some_iff] at hstep
    obtain ⟨h, hlock, rfl⟩ := hstep
    exact hrep.routeOutbound (lock_eq_some.1 hlock).1 data
  | connection i e =>
    rw [Hub.step, Option.bind_eq_some_iff] at hstep
    obtain ⟨h, hlock, hgoes⟩ := hstep
    obtain ⟨c, hc, rfl⟩ := Option.map_eq_some_iff.1 hgoes
    have hi := (lock_eq_some.1 hlock).1
    have hmatches := hrep.hosted i h hi
    refine hrep.set hi rfl rfl ⟨hmatches.registered, hmatches.expired, ?_⟩ fun j hj =>
      ⟨rfl, Function.update_of_ne hj _ _⟩
    change Connection.InOrder (Function.update b.handed i _ i) c
    rw [Function.update_self]
    exact hmatches.order.step hc
  | expires i =>
    rw [Hub.step, Option.map_eq_some_iff] at hstep
    obtain ⟨h, hlock, rfl⟩ := hstep
    have hi := (lock_eq_some.1 hlock).1
    have hmatches := hrep.hosted i h hi
    refine hrep.set hi rfl rfl ⟨hmatches.registered, ?_, hmatches.order⟩ fun j hj =>
      ⟨Function.update_of_ne hj _ _, rfl⟩
    exact (Function.update_self i true b.expired).symm

theorem represents_start : Represents {} {} := by
  constructor
  · rfl
  · intro j h hj
    cases hj
  · exact fun _ _ => ⟨rfl, rfl⟩
  · intro i j hj
    cases hj

/-! ## Runs -/

theorem Broadcast.ofEvents_append (es : List Event) (e : Event) :
    ofEvents (es ++ [e]) = (ofEvents es).step e := List.foldl_append

variable {es : List Event}

theorem represents_run (hrun : Runs.run step {} es = some hub) :
    Represents hub (.ofEvents es) := by
  have hkeep : ∀ (es : List Event) (hub : Hub) (e : Event) (hub' : Hub),
      Represents hub (.ofEvents es) → hub.step e = some hub' →
        Represents hub' (.ofEvents (es ++ [e])) := by
    intro es hub e hub' hrep hstep
    rw [Broadcast.ofEvents_append]
    exact hrep.step hstep
  exact Runs.run_invariant_history hkeep represents_start hrun

/-- What an event gives connection `j` to send: its own packets, and what its own router routes. -/
def Event.own (j : Nat) : Event → List (List UInt8)
  | .routeOutbound i data => if i = j then [data] else []
  | .connection i e => if i = j then Connection.packets [e] else []
  | _ => []

/-- Each router has its own connection registered and no other. -/
structure OwnOnly (b : Broadcast) (own : Nat → List (List UInt8)) : Prop where
  registered : ∀ i, i < b.size → b.registered i = [i]
  handed : ∀ j, b.handed j = own j

theorem OwnOnly.step {own : Nat → List (List UInt8)} (howns : OwnOnly b own)
    (hrep : Represents hub b) {e : Event} (hstep : hub.step e = some hub')
    (hnone : ∀ i handler, e ≠ .configureOutbound i handler) :
    OwnOnly (b.step e) fun j => own j ++ e.own j := by
  cases e with
  | handleNewConnection handlers =>
    constructor
    · intro i hi
      change Function.update b.registered b.size [b.size] i = [i]
      by_cases hlast : i = b.size
      · rw [hlast, Function.update_self]
      · rw [Function.update_of_ne hlast]
        exact howns.registered i (Nat.lt_of_le_of_ne (Nat.le_of_lt_succ hi) hlast)
    · exact fun j => (howns.handed j).trans (List.append_nil _).symm
  | configureOutbound i handler => exact absurd rfl (hnone i handler)
  | routeOutbound i data =>
    rw [Hub.step, Option.map_eq_some_iff] at hstep
    obtain ⟨h, hlock, -⟩ := hstep
    obtain ⟨hi, halive⟩ := lock_eq_some.1 hlock
    refine ⟨howns.registered, fun j => ?_⟩
    change b.handed j ++ _ = own j ++ if i = j then [data] else []
    rw [howns.handed, howns.registered i (hrep.lt_size hi), List.count_singleton]
    by_cases hij : i = j
    · -- the router of an expired connection routes nothing
      subst hij
      rw [← (hrep.hosted i h hi).expired, halive, if_pos rfl, if_pos (beq_self_eq_true i)]
      rfl
    · rw [if_neg hij, if_neg (mt beq_iff_eq.1 hij)]
      exact congrArg _ (ite_self _)
  | connection i e =>
    refine ⟨howns.registered, fun j => ?_⟩
    change Function.update b.handed i _ j = own j ++ if i = j then _ else []
    by_cases hij : i = j
    · subst hij
      rw [Function.update_self, howns.handed, if_pos rfl]
    · rw [Function.update_of_ne (Ne.symm hij), howns.handed, if_neg hij, List.append_nil]
  | expires i =>
    exact ⟨howns.registered, fun j => (howns.handed j).trans (List.append_nil _).symm⟩

theorem ownOnly_run (hrun : Runs.run step {} es = some hub)
    (hnone : ∀ i handler, .configureOutbound i handler ∉ es) :
    OwnOnly (.ofEvents es) fun j => es.flatMap (Event.own j) := by
  let Inv (es : List Event) (hub : Hub) : Prop := Represents hub (.ofEvents es) ∧
    ((∀ i handler, .configureOutbound i handler ∉ es) →
      OwnOnly (.ofEvents es) fun j => es.flatMap (Event.own j))
  have hkeep : ∀ (es : List Event) (hub : Hub) (e : Event) (hub' : Hub), Inv es hub →
      hub.step e = some hub' → Inv (es ++ [e]) hub' := by
    rintro es hub e hub' ⟨hrep, hearlier⟩ hstep
    change Represents hub' (.ofEvents (es ++ [e])) ∧ _
    rw [Broadcast.ofEvents_append]
    refine ⟨hrep.step hstep, fun hnone => ?_⟩
    have howns := hearlier fun i handler hmem => hnone i handler (List.mem_append_left [e] hmem)
    have hlast := howns.step hrep hstep fun i handler he =>
      hnone i handler (List.mem_append_right es (List.mem_singleton.2 he.symm))
    simpa only [List.flatMap_append, List.flatMap_singleton] using hlast
  have hstart : Inv [] {} :=
    ⟨represents_start, fun _ => ⟨fun i hi => absurd hi (Nat.not_lt_zero i), fun _ => rfl⟩⟩
  exact (Runs.run_invariant_history hkeep hstart hrun).2 hnone

/-- **Outbound.** A connection has written, and still holds to write, what a broadcast hands to it,
in that order. If no handlers are added, this is what was sent on it and what its own router
routed. -/
theorem routed_outbound_in_order (hrun : Runs.run step {} es = some hub) {j : Nat} {h : Hosted}
    (hj : hub.hosted[j]? = some h) :
    h.connection.written ++ h.connection.sendPacketQueue = (Broadcast.ofEvents es).handed j ∧
      ((∀ i handler, .configureOutbound i handler ∉ es) →
        h.connection.written ++ h.connection.sendPacketQueue = es.flatMap (Event.own j)) := by
  have horder := ((represents_run hrun).hosted j h hj).order.order
  refine ⟨horder, fun hnone => ?_⟩
  rw [horder]
  exact (ownOnly_run hrun hnone).handed j

/-- Two connections, of which the second is also registered with the router of the first. -/
theorem routed_outbound_in_order_sample :
    ∃ hub h, Runs.run step {} [.handleNewConnection 1, .handleNewConnection 1,
        .configureOutbound 0 1, .routeOutbound 0 [7], .routeOutbound 1 [8]] = some hub ∧
      hub.hosted[1]? = some h ∧
        h.connection.written ++ h.connection.sendPacketQueue = [[7], [8]] := by
  refine ⟨_, _, rfl, rfl, ?_⟩
  exact (routed_outbound_in_order (j := 1) (rfl : Runs.run step {} [.handleNewConnection 1,
    .handleNewConnection 1, .configureOutbound 0 1, .routeOutbound 0 [7],
    .routeOutbound 1 [8]] = some _) rfl).1

end Hub

end KeycapRoot.Network
