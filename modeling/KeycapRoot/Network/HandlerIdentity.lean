import Mathlib.Data.List.Nodup
import KeycapRoot.Lib.Runs
import KeycapRoot.Network.DataRouter

/-!
# The identity of handlers

A router tells handlers apart by uuids that their constructors draw. The copy constructor draws one
of its own, but the assignment, which the class does not declare, takes over the one of the other
handler. From then on the router cannot tell the two apart: `remove_handler` removes nothing but the
handler that it is given, in every state of a run, exactly if no handler was assigned to another one
(`removes_itself_iff`).
-/

namespace KeycapRoot.Network

/-- The message handlers of a program, by their uuids, and how many uuids have been drawn. -/
structure MessageHandlers (υ : Type) where
  uuids : List υ := []
  drawn : Nat := 0

namespace MessageHandlers

variable {υ : Type}

inductive Event
  | construct
  | copy (rhs : Nat)
  | assign (lhs rhs : Nat)
  deriving DecidableEq, Repr

section Steps

variable (generator : Nat → υ)

/-- `message_handler()` and `message_handler(rhs)`, which does not look at its argument. -/
def construct (s : MessageHandlers υ) : MessageHandlers υ where
  uuids := s.uuids ++ [generator s.drawn]
  drawn := s.drawn + 1

def step (s : MessageHandlers υ) : Event → Option (MessageHandlers υ)
  | .construct => some (s.construct generator)
  | .copy rhs => if rhs < s.uuids.length then some (s.construct generator) else none
  | .assign lhs rhs =>
    if lhs < s.uuids.length then
      (s.uuids[rhs]?).map fun uuid => { s with uuids := s.uuids.set lhs uuid }
    else none

end Steps

/-- `remove_handler` of any router takes out the registrations of its handler and no others. -/
def RemovesItself [DecidableEq υ] (s : MessageHandlers υ) : Prop :=
  ∀ (router : DataRouter Nat) (handler : Nat), (∀ i ∈ router.inboundHandlers, i < s.uuids.length) →
    handler < s.uuids.length →
    (router.removeHandler (s.uuids[·]?) handler).inboundHandlers =
      router.inboundHandlers.filter (· ≠ handler)

theorem inboundHandlers_removeHandler {η υ : Type} [DecidableEq υ] (uuid : η → υ)
    (router : DataRouter η) (handler : η) :
    (router.removeHandler uuid handler).inboundHandlers =
      router.inboundHandlers.filter fun i => decide (uuid i ≠ uuid handler) := by
  rw [DataRouter.removeHandler]
  apply List.filter_congr
  intro i _
  rw [beq_eq_decide, decide_not]

theorem removesItself_iff [DecidableEq υ] (s : MessageHandlers υ) :
    s.RemovesItself ↔ s.uuids.Nodup := by
  constructor
  · intro h
    rw [List.nodup_iff_getElem?_ne_getElem?]
    intro i j hij hj heq
    -- a router with only the earlier of two handlers with one uuid
    have hremoved := h { inboundHandlers := [i] } j
      (List.forall_mem_singleton.2 (Nat.lt_trans hij hj)) hj
    rw [inboundHandlers_removeHandler, List.filter_singleton, List.filter_singleton,
      decide_eq_false (not_not_intro heq), decide_eq_true (Nat.ne_of_lt hij)] at hremoved
    cases hremoved
  · intro hnodup router handler hrouter _
    rw [inboundHandlers_removeHandler]
    apply List.filter_congr
    intro i hi
    exact decide_eq_decide.2 (not_congr (List.getElem?_inj (hrouter i hi) hnodup))

/-! ## Runs -/

section Runs

variable {generator : Nat → υ}

/-- The uuids are different ones, and were drawn. -/
structure Distinct (generator : Nat → υ) (s : MessageHandlers υ) : Prop where
  nodup : s.uuids.Nodup
  drawn : ∀ uuid ∈ s.uuids, ∃ k, k < s.drawn ∧ uuid = generator k

theorem Distinct.construct (hgenerator : Function.Injective generator) {s : MessageHandlers υ}
    (h : Distinct generator s) : Distinct generator (s.construct generator) := by
  constructor
  · refine List.nodup_append.2 ⟨h.nodup, List.nodup_singleton _, ?_⟩
    intro uuid hmem last hlast heq
    obtain ⟨k, hk, hold⟩ := h.drawn uuid hmem
    have hnew := List.mem_singleton.1 hlast
    exact absurd (hgenerator (hold.symm.trans (heq.trans hnew))) (Nat.ne_of_lt hk)
  · intro uuid hmem
    rcases List.mem_append.1 hmem with hold | hnew
    · obtain ⟨k, hk, huuid⟩ := h.drawn uuid hold
      exact ⟨k, Nat.lt_succ_of_lt hk, huuid⟩
    · exact ⟨s.drawn, Nat.lt_succ_self _, List.mem_singleton.1 hnew⟩

/-- An assignment to another handler is the only thing that makes two uuids equal. -/
def Event.KeepsApart : Event → Prop
  | .assign lhs rhs => lhs = rhs
  | _ => True

theorem Distinct.step (hgenerator : Function.Injective generator) {s s' : MessageHandlers υ}
    {e : Event} (h : Distinct generator s) (hkeeps : e.KeepsApart)
    (hstep : s.step generator e = some s') : Distinct generator s' := by
  cases e with
  | construct =>
    cases hstep
    exact h.construct hgenerator
  | copy rhs =>
    rw [MessageHandlers.step, Option.ite_none_right_eq_some] at hstep
    cases hstep.2
    exact h.construct hgenerator
  | assign lhs rhs =>
    rw [MessageHandlers.step, Option.ite_none_right_eq_some, Option.map_eq_some_iff] at hstep
    obtain ⟨hlhs, uuid, hrhs, rfl⟩ := hstep
    obtain rfl : lhs = rhs := hkeeps
    have hsame : s.uuids.set lhs uuid = s.uuids := by
      rw [← (List.getElem?_eq_some_iff.1 hrhs).2]
      exact List.set_getElem_self hlhs
    rw [hsame]
    exact h

theorem not_nodup_step {s s' : MessageHandlers υ} {e : Event} (hbreaks : ¬ e.KeepsApart)
    (hstep : s.step generator e = some s') : ¬ s'.uuids.Nodup := by
  cases e with
  | construct => exact absurd trivial hbreaks
  | copy rhs => exact absurd trivial hbreaks
  | assign lhs rhs =>
    rw [step, Option.ite_none_right_eq_some, Option.map_eq_some_iff] at hstep
    obtain ⟨hlhs, uuid, hrhs, rfl⟩ := hstep
    intro hnodup
    have hless : lhs < (s.uuids.set lhs uuid).length := by rwa [List.length_set]
    have hequal : (s.uuids.set lhs uuid)[lhs]? = (s.uuids.set lhs uuid)[rhs]? := by
      rw [List.getElem?_set_self hlhs, List.getElem?_set_ne hbreaks, hrhs]
    exact hbreaks ((List.getElem?_inj hless hnodup).1 hequal)

end Runs

/-- **Identity.** If the generator draws no uuid twice, then throughout a run that constructs,
copies and assigns handlers, `remove_handler` removes the registrations of its handler and no
others, if and only if no handler is assigned to another one. -/
theorem removes_itself_iff [DecidableEq υ] {generator : Nat → υ}
    (hgenerator : Function.Injective generator) {es : List Event} {t : MessageHandlers υ}
    (hrun : Runs.run (step generator) {} es = some t) :
    (∀ before s, before <+: es → Runs.run (step generator) {} before = some s →
      s.RemovesItself) ↔ ∀ lhs rhs, .assign lhs rhs ∈ es → lhs = rhs := by
  have hexact : _ ↔ Runs.Along (step generator) (fun _ e => e.KeepsApart) {} es :=
    Runs.always_iff_along (fun s (h : Distinct generator s) => (removesItself_iff s).2 h.nodup)
      (fun _ _ _ h hkeeps hstep => h.step hgenerator hkeeps hstep)
      (fun _ _ s' _ hbreaks hstep hremoves =>
        not_nodup_step hbreaks hstep ((removesItself_iff s').1 hremoves))
      ⟨List.nodup_nil, fun _ hmem => absurd hmem List.not_mem_nil⟩ hrun
  rw [hexact]
  constructor
  · intro halong lhs rhs hmem
    exact Runs.forall_of_along halong hrun _ hmem
  · intro h
    refine Runs.along_of_forall (fun e hmem => ?_) _
    cases e with
    | assign lhs rhs => exact h lhs rhs hmem
    | _ => exact trivial

/-- A copy keeps its own identity until it is assigned. -/
theorem removes_itself_iff_sample :
    (∃ s, Runs.run (step id) {} [.construct, .copy 0] = some s ∧ s.RemovesItself) ∧
      ¬ ∀ before s, before <+: [.construct, .copy 0, .assign 1 0] →
        Runs.run (step id) {} before = some s → s.RemovesItself := by
  have hrun : Runs.run (step id) {} [.construct, .copy 0] = some _ := rfl
  constructor
  · refine ⟨_, hrun, (removes_itself_iff Function.injective_id hrun).2 ?_ _ _ List.prefix_rfl hrun⟩
    intro lhs rhs hmem
    simp at hmem
  · intro h
    have hsame := (removes_itself_iff Function.injective_id rfl).1 h 1 0 (by simp)
    cases hsame

end MessageHandlers

end KeycapRoot.Network
