import Mathlib.Tactic.Common

/-!
# The data router

A router passes what happens on a connection to its message handlers, in the order in which they
were registered. `route_inbound` stops asking at the first handler that returns false, because the
conjunction it takes is a short-circuit one. `η` is the type of the handlers.
-/

namespace KeycapRoot.Network

inductive LinkStatus
  | down
  | up
  | failed
  deriving DecidableEq, Repr

/-- How a call of `on_data` ends: it returns true or false, or it throws, a `std::exception` or
something else. -/
inductive Verdict
  | accepts
  | refuses
  | throws (standard : Bool)
  deriving DecidableEq, Repr

structure DataRouter (η : Type) where
  inboundHandlers : List η := []
  deriving DecidableEq, Repr

namespace DataRouter

variable {η : Type}

/-- `configure_inbound(handler)`. -/
def configureInbound (router : DataRouter η) (handler : η) : DataRouter η where
  inboundHandlers := router.inboundHandlers ++ [handler]

/-- `remove_handler(handler)`, given the uuids that the handlers are compared by. -/
def removeHandler {υ : Type} [DecidableEq υ] (uuid : η → υ) (router : DataRouter η)
    (handler : η) : DataRouter η where
  inboundHandlers := router.inboundHandlers.filter fun messageHandler =>
    !(uuid messageHandler == uuid handler)

/-- `route_updated_link_status(service, status)`: the handlers whose `on_link` it calls. What they
return is not looked at. -/
def routeUpdatedLinkStatus (router : DataRouter η) : List η := router.inboundHandlers

section RouteInbound

variable (onData : η → Verdict)

/-- The loop of `route_inbound` from some handler on. -/
def routeInboundFrom : List η → Bool → Verdict × List η
  | [], succeeded => (if succeeded then .accepts else .refuses, [])
  | _ :: handlers, false => routeInboundFrom handlers false
  | handler :: handlers, true =>
    match onData handler with
    | .throws standard => (.throws standard, [handler])
    | .accepts =>
      let (verdict, called) := routeInboundFrom handlers true
      (verdict, handler :: called)
    | .refuses =>
      let (verdict, called) := routeInboundFrom handlers false
      (verdict, handler :: called)

/-- `route_inbound(service, data)`, given what each handler makes of the data: how it ends, and the
handlers whose `on_data` it calls. -/
def routeInbound (router : DataRouter η) : Verdict × List η :=
  routeInboundFrom onData router.inboundHandlers true

/-- Handlers are called in order, and none twice. -/
theorem sublist_routeInboundFrom (handlers : List η) (succeeded : Bool) :
    (routeInboundFrom onData handlers succeeded).2.Sublist handlers := by
  induction handlers generalizing succeeded with
  | nil => exact List.Sublist.refl _
  | cons handler handlers ih =>
    cases succeeded with
    | false => exact (ih false).cons _
    | true =>
      rw [routeInboundFrom]
      cases onData handler with
      | accepts => exact (ih true).cons_cons _
      | refuses => exact (ih false).cons_cons _
      | throws standard => exact (List.nil_sublist _).cons_cons _

/-- The first handler is always called. -/
theorem routeInbound_cons {router : DataRouter η} {first : η} {others : List η}
    (h : router.inboundHandlers = first :: others) :
    ∃ called, (router.routeInbound onData).2 = first :: called ∧ called.Sublist others := by
  rw [routeInbound, h, routeInboundFrom]
  cases onData first with
  | accepts => exact ⟨_, rfl, sublist_routeInboundFrom onData others true⟩
  | refuses => exact ⟨_, rfl, sublist_routeInboundFrom onData others false⟩
  | throws standard => exact ⟨[], rfl, List.nil_sublist _⟩

end RouteInbound

end DataRouter

end KeycapRoot.Network
