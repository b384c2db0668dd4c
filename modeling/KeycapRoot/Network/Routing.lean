import KeycapRoot.Network.DataRouter

/-!
# Routing to all handlers

However handlers were configured and removed, a router has the handlers that were configured and not
removed later, once for each registration and in their order. It passes a new link status to each of
them. Data it passes on up to the first handler that does not accept it; so all get the data exactly
if every one before the last accepts it (`routes_to_all_iff`).
-/

namespace KeycapRoot.Network.DataRouter

variable {η : Type}

/-! ## Histories -/

inductive Configuration (η : Type)
  | configureInbound (handler : η)
  | removeHandler (handler : η)

section Histories

variable {υ : Type} [DecidableEq υ] (uuid : η → υ)

def configure (router : DataRouter η) : Configuration η → DataRouter η
  | .configureInbound handler => router.configureInbound handler
  | .removeHandler handler => router.removeHandler uuid handler

/-- The router after a history of calls. -/
def configured (history : List (Configuration η)) : DataRouter η :=
  history.foldl (configure uuid) {}

variable [DecidableEq η]

/-- The handler is removed by one of the calls. -/
def removed (handler : η) (history : List (Configuration η)) : Bool :=
  history.any fun
    | .configureInbound _ => false
    | .removeHandler other => handler == other

/-- The handlers that were configured and not removed later, once for each time they were
configured. -/
def registrations : List (Configuration η) → List η
  | [] => []
  | .configureInbound handler :: later =>
    if removed handler later then registrations later else handler :: registrations later
  | .removeHandler _ :: later => registrations later

variable {uuid} (huuid : Function.Injective uuid)

include huuid

theorem foldl_configure (history : List (Configuration η)) (router : DataRouter η) :
    (history.foldl (configure uuid) router).inboundHandlers =
      (router.inboundHandlers.filter fun handler => !removed handler history) ++
        registrations history := by
  induction history generalizing router with
  | nil =>
    have hall : router.inboundHandlers.filter (fun _ => true) = router.inboundHandlers :=
      List.filter_eq_self.2 fun _ _ => rfl
    simp [removed, registrations, hall]
  | cons call later ih =>
    rw [List.foldl_cons, ih]
    cases call with
    | configureInbound handler =>
      have hkept : (fun h => !removed h (.configureInbound handler :: later)) =
          fun h => !removed h later := by
        funext h
        simp [removed]
      rw [hkept, configure, configureInbound, registrations, List.filter_append]
      cases hremoved : removed handler later with
      | true => simp [hremoved]
      | false => simp [hremoved]
    | removeHandler handler =>
      have hkept : (fun h => !removed h (.removeHandler handler :: later)) =
          fun h => !(uuid h == uuid handler) && !removed h later := by
        funext h
        have hsame : (h == handler) = (uuid h == uuid handler) := by
          rw [Bool.eq_iff_iff, beq_iff_eq, beq_iff_eq, huuid.eq_iff]
        simp [removed, hsame]
      rw [hkept, configure, removeHandler, registrations, List.filter_filter]
      simp only [Bool.and_comm]

theorem inboundHandlers_configured (history : List (Configuration η)) :
    (configured uuid history).inboundHandlers = registrations history := by
  rw [configured, foldl_configure huuid]
  rfl

end Histories

/-! ## Routing -/

section Routing

variable (onData : η → Verdict)

theorem routeInboundFrom_false (handlers : List η) :
    routeInboundFrom onData handlers false = (.refuses, []) := by
  induction handlers with
  | nil => rfl
  | cons handler handlers ih => rw [routeInboundFrom, ih]

/-- Data is accepted when every handler accepts it. -/
theorem routeInboundFrom_accepts (handlers : List η) :
    (routeInboundFrom onData handlers true).1 = .accepts ↔
      ∀ handler ∈ handlers, onData handler = .accepts := by
  induction handlers with
  | nil => simp [routeInboundFrom]
  | cons handler handlers ih =>
    rw [routeInboundFrom, List.forall_mem_cons]
    cases honData : onData handler with
    | accepts => simpa using ih
    | refuses => simp [routeInboundFrom_false]
    | throws standard => simp

/-- Every handler is called when every one before the last accepts the data. -/
theorem routeInboundFrom_calls_all (handlers : List η) :
    (routeInboundFrom onData handlers true).2 = handlers ↔
      ∀ handler ∈ handlers.dropLast, onData handler = .accepts := by
  induction handlers with
  | nil => simp [routeInboundFrom]
  | cons handler handlers ih =>
    rw [routeInboundFrom]
    cases handlers with
    | nil => cases onData handler <;> simp [routeInboundFrom]
    | cons next handlers =>
      rw [List.dropLast_cons_of_ne_nil (List.cons_ne_nil _ _), List.forall_mem_cons]
      cases honData : onData handler with
      | accepts => simpa using ih
      | refuses => simp [routeInboundFrom_false]
      | throws standard => simp

/-- The router with each registration told apart from others of the same handler by its place, since
two calls of one handler need not end alike. -/
def placed (router : DataRouter η) : DataRouter (η × Nat) where
  inboundHandlers := router.inboundHandlers.zipIdx

end Routing

/-- The data gets to the handlers that are expected, all of them in their order, and the result says
whether all accepted it; a new link status gets to the same handlers. -/
structure RoutesToAll (router : DataRouter η) (expected : List η)
    (onData : η → Nat → Verdict) : Prop where
  called : (router.placed.routeInbound fun r => onData r.1 r.2).2.map Prod.fst = expected
  returns : (router.placed.routeInbound fun r => onData r.1 r.2).1 = .accepts ↔
    ∀ i handler, expected[i]? = some handler → onData handler i = .accepts
  link : router.routeUpdatedLinkStatus = expected

/-- The results of the registrations by their places. -/
theorem forall_mem_zipIdx {p : η → Nat → Prop} (handlers : List η) :
    (∀ r ∈ handlers.zipIdx, p r.1 r.2) ↔
      ∀ i handler, handlers[i]? = some handler → p handler i := by
  constructor
  · intro h i handler hplace
    exact h (handler, i) (List.mk_mem_zipIdx_iff_getElem?.2 hplace)
  · rintro h ⟨handler, i⟩ hmem
    exact h i handler (List.mk_mem_zipIdx_iff_getElem?.1 hmem)

/-- The results of the registrations before the last one. -/
theorem forall_mem_dropLast_zipIdx {p : η → Nat → Prop} (handlers : List η) :
    (∀ r ∈ handlers.zipIdx.dropLast, p r.1 r.2) ↔
      ∀ i handler, handlers[i]? = some handler → i + 1 < handlers.length → p handler i := by
  have hplace (i : Nat) : handlers.zipIdx.dropLast[i]? =
      if i + 1 < handlers.length then handlers[i]?.map fun handler => (handler, i) else none := by
    rw [List.getElem?_dropLast, List.getElem?_zipIdx, List.length_zipIdx, Nat.zero_add]
    exact if_congr (by omega) rfl rfl
  constructor
  · intro h i handler hhandler hbefore
    refine h (handler, i) (List.mem_iff_getElem?.2 ⟨i, ?_⟩)
    rw [hplace, if_pos hbefore, hhandler]
    rfl
  · intro h r hmem
    obtain ⟨i, hi⟩ := List.mem_iff_getElem?.1 hmem
    rw [hplace] at hi
    split at hi
    · next hbefore =>
      obtain ⟨handler, hhandler, rfl⟩ := Option.map_eq_some_iff.1 hi
      exact h i handler hhandler hbefore
    · cases hi

/-- **Routing.** After any history of calls, and however the call of each registration ends, the
return value says whether all handlers accepted the data, and a new link status gets to all of them;
the data gets to all of them if and only if every registration before the last one accepts it. -/
theorem routes_to_all_iff [DecidableEq η] {υ : Type} [DecidableEq υ] {uuid : η → υ}
    (huuid : Function.Injective uuid) (history : List (Configuration η))
    (onData : η → Nat → Verdict) :
    let router := configured uuid history
    let expected := registrations history
    (RoutesToAll router expected onData ↔
      ∀ i handler, expected[i]? = some handler → i + 1 < expected.length →
        onData handler i = .accepts) ∧
    ((router.placed.routeInbound fun r => onData r.1 r.2).1 = .accepts ↔
      ∀ i handler, expected[i]? = some handler → onData handler i = .accepts) ∧
    router.routeUpdatedLinkStatus = expected := by
  intro router expected
  have hhandlers : router.inboundHandlers = expected := inboundHandlers_configured huuid history
  have hreturns : (router.placed.routeInbound fun r => onData r.1 r.2).1 = .accepts ↔
      ∀ i handler, expected[i]? = some handler → onData handler i = .accepts := by
    rw [← forall_mem_zipIdx (p := fun handler i => onData handler i = .accepts), ← hhandlers]
    exact routeInboundFrom_accepts _ _
  have hcalled : (router.placed.routeInbound fun r => onData r.1 r.2).2.map Prod.fst = expected ↔
      ∀ i handler, expected[i]? = some handler → i + 1 < expected.length →
        onData handler i = .accepts := by
    rw [← forall_mem_dropLast_zipIdx (p := fun handler i => onData handler i = .accepts),
      ← hhandlers]
    refine Iff.trans ⟨fun h => ?_, fun h => ?_⟩ (routeInboundFrom_calls_all _ _)
    · -- the calls are a sublist of the registrations, and so all of them if they are as many
      have hsublist := sublist_routeInboundFrom (fun r : η × Nat => onData r.1 r.2)
        router.inboundHandlers.zipIdx true
      refine hsublist.eq_of_length ?_
      have hlength := congrArg List.length h
      rw [List.length_map] at hlength
      rw [List.length_zipIdx]
      exact hlength
    · refine (congrArg (List.map Prod.fst) h).trans ?_
      exact List.zipIdx_map_fst 0 _
  refine ⟨⟨fun h => hcalled.1 h.called, fun h => ⟨hcalled.2 h, hreturns, hhandlers⟩⟩, hreturns,
    hhandlers⟩

/-- Three handlers, one of them configured twice and one removed again. -/
def sampleHistory : List (Configuration Nat) :=
  [.configureInbound 5, .configureInbound 6, .configureInbound 7, .configureInbound 5,
    .removeHandler 6]

theorem routes_to_all_iff_sample :
    RoutesToAll (configured id sampleHistory) [5, 7, 5] fun _ _ => .accepts :=
  (routes_to_all_iff (fun _ _ h => h) sampleHistory fun _ _ => .accepts).1.2
    fun _ _ _ _ => rfl

/-- The first of two handlers refuses the data, and the second does not get it. -/
theorem refusal_not_routed :
    ¬ RoutesToAll (configured id [.configureInbound 5, .configureInbound 6]) [5, 6]
      fun handler _ => if handler = 5 then .refuses else .accepts := by
  intro h
  exact absurd h.called (by decide)

end KeycapRoot.Network.DataRouter
