import Mathlib.Tactic.Common

/-!
# Runs of a state machine

A machine is a partial step function `σ → ε → Option σ` from a state and an event, undefined where
the event cannot happen. `run` executes a list of events. A predicate that holds at the start and
survives every step holds at the end of every run (`run_invariant`), also when only the steps that
meet a condition preserve it (`run_invariant_along`); `Along` says that every step of a run meets
the condition. Where every other step breaks what is wanted, the condition is exact
(`always_iff_along`).
-/

namespace Runs

variable {σ ε : Type*} {step : σ → ε → Option σ}

/-- The state after the events, if each of them can happen in turn. -/
def run (step : σ → ε → Option σ) : σ → List ε → Option σ
  | s, [] => some s
  | s, e :: es => (step s e).bind fun s' => run step s' es

@[simp] theorem run_nil (s : σ) : run step s [] = some s := rfl

theorem run_cons_eq_some {s t : σ} {e : ε} {es : List ε} :
    run step s (e :: es) = some t ↔ ∃ s', step s e = some s' ∧ run step s' es = some t :=
  Option.bind_eq_some_iff

theorem run_append_eq_some {s t : σ} {es fs : List ε} :
    run step s (es ++ fs) = some t ↔ ∃ s', run step s es = some s' ∧ run step s' fs = some t := by
  induction es generalizing s with
  | nil => simp
  | cons e es ih =>
    rw [List.cons_append, run_cons_eq_some]
    constructor
    · rintro ⟨s₁, he, hrest⟩
      obtain ⟨s', hes, hfs⟩ := ih.1 hrest
      exact ⟨s', run_cons_eq_some.2 ⟨s₁, he, hes⟩, hfs⟩
    · rintro ⟨s', hes, hfs⟩
      obtain ⟨s₁, he, hrest⟩ := run_cons_eq_some.1 hes
      exact ⟨s₁, he, ih.2 ⟨s', hrest, hfs⟩⟩

/-- **Invariants.** What every step preserves holds after every run. -/
theorem run_invariant {Inv : σ → Prop} (hstep : ∀ s e s', Inv s → step s e = some s' → Inv s')
    {s t : σ} {es : List ε} (hs : Inv s) (hrun : run step s es = some t) : Inv t := by
  induction es generalizing s with
  | nil => exact Option.some.inj hrun ▸ hs
  | cons e es ih =>
    obtain ⟨s', he, hrest⟩ := run_cons_eq_some.1 hrun
    exact ih (hstep s e s' hs he) hrest

/-- The invariant rule for statements about the events so far. -/
theorem run_invariant_history {Inv : List ε → σ → Prop}
    (hstep : ∀ es s e s', Inv es s → step s e = some s' → Inv (es ++ [e]) s')
    {s t : σ} {es : List ε} (hs : Inv [] s) (hrun : run step s es = some t) : Inv es t := by
  have hmore : ∀ (before es : List ε) (s : σ), Inv before s → run step s es = some t →
      Inv (before ++ es) t := by
    intro before es
    induction es generalizing before with
    | nil =>
      intro s hs hrun
      cases hrun
      rwa [List.append_nil]
    | cons e es ih =>
      intro s hs hrun
      obtain ⟨s', he, hrest⟩ := run_cons_eq_some.1 hrun
      rw [← List.singleton_append, ← List.append_assoc]
      exact ih (before ++ [e]) s' (hstep before s e s' hs he) hrest
  exact hmore [] es s hs hrun

/-- Every step of the run meets `ok`, a condition on the state before the step and the event. -/
def Along (step : σ → ε → Option σ) (ok : σ → ε → Prop) : σ → List ε → Prop
  | _, [] => True
  | s, e :: es => ok s e ∧ ∀ s', step s e = some s' → Along step ok s' es

theorem along_cons_of_step {ok : σ → ε → Prop} {s s' : σ} {e : ε} {es : List ε}
    (he : step s e = some s') :
    Along step ok s (e :: es) ↔ ok s e ∧ Along step ok s' es :=
  ⟨fun h => ⟨h.1, h.2 s' he⟩, fun h => ⟨h.1, fun t ht => by
    cases he.symm.trans ht
    exact h.2⟩⟩

theorem along_cons_of_stuck {ok : σ → ε → Prop} {s : σ} {e : ε} {es : List ε}
    (he : step s e = none) : Along step ok s (e :: es) ↔ ok s e :=
  ⟨And.left, fun h => ⟨h, fun t ht => by cases he.symm.trans ht⟩⟩

instance decidableAlong (ok : σ → ε → Prop) [∀ s e, Decidable (ok s e)] :
    ∀ (s : σ) (es : List ε), Decidable (Along step ok s es)
  | _, [] => isTrue trivial
  | s, e :: es =>
    match he : step s e with
    | none => decidable_of_iff _ (along_cons_of_stuck he).symm
    | some s' =>
      have := decidableAlong ok s' es
      decidable_of_iff _ (along_cons_of_step he).symm

/-- The invariant rule for runs whose steps all meet a condition. -/
theorem run_invariant_along {ok : σ → ε → Prop} {Inv : σ → Prop}
    (hstep : ∀ s e s', Inv s → ok s e → step s e = some s' → Inv s') {s t : σ} {es : List ε}
    (hs : Inv s) (hok : Along step ok s es) (hrun : run step s es = some t) : Inv t := by
  induction es generalizing s with
  | nil => exact Option.some.inj hrun ▸ hs
  | cons e es ih =>
    obtain ⟨s', he, hrest⟩ := run_cons_eq_some.1 hrun
    exact ih (hstep s e s' hs hok.1 he) (hok.2 s' he) hrest

/-- Under an invariant one condition on the steps follows from another. -/
theorem along_imp {ok ok' : σ → ε → Prop} {Inv : σ → Prop}
    (hstep : ∀ s e s', Inv s → ok s e → step s e = some s' → Inv s')
    (himp : ∀ s e, Inv s → ok s e → ok' s e) {s : σ} {es : List ε} (hs : Inv s)
    (hok : Along step ok s es) : Along step ok' s es := by
  induction es generalizing s with
  | nil => trivial
  | cons e es ih =>
    exact ⟨himp s e hs hok.1, fun s' he => ih (hstep s e s' hs hok.1 he) (hok.2 s' he)⟩

/-- A condition on the events alone. -/
theorem along_of_forall {p : ε → Prop} {es : List ε} (h : ∀ e ∈ es, p e) (s : σ) :
    Along step (fun _ e => p e) s es := by
  induction es generalizing s with
  | nil => trivial
  | cons e es ih =>
    obtain ⟨he, hes⟩ := List.forall_mem_cons.1 h
    exact ⟨he, fun s' _ => ih hes s'⟩

theorem Along.and {ok ok' : σ → ε → Prop} {s : σ} {es : List ε} (h : Along step ok s es)
    (h' : Along step ok' s es) : Along step (fun s e => ok s e ∧ ok' s e) s es := by
  induction es generalizing s with
  | nil => trivial
  | cons e es ih => exact ⟨⟨h.1, h'.1⟩, fun s' he => ih (h.2 s' he) (h'.2 s' he)⟩

theorem forall_of_along {p : ε → Prop} {s t : σ} {es : List ε}
    (h : Along step (fun _ e => p e) s es) (hrun : run step s es = some t) : ∀ e ∈ es, p e := by
  induction es generalizing s with
  | nil => exact fun e hmem => absurd hmem List.not_mem_nil
  | cons e es ih =>
    obtain ⟨s', he, hrest⟩ := run_cons_eq_some.1 hrun
    exact List.forall_mem_cons.2 ⟨h.1, ih (h.2 s' he) hrest⟩

theorem along_append {ok : σ → ε → Prop} {s s' : σ} {es fs : List ε}
    (hrun : run step s es = some s') :
    Along step ok s (es ++ fs) ↔ Along step ok s es ∧ Along step ok s' fs := by
  induction es generalizing s with
  | nil =>
    cases hrun
    exact (true_and _).symm.to_iff
  | cons e es ih =>
    obtain ⟨s₁, he, hrest⟩ := run_cons_eq_some.1 hrun
    rw [List.cons_append, along_cons_of_step he, along_cons_of_step he, ih hrest, and_assoc]

/-- **Exact conditions.** Let every step that meets the condition keep an invariant, from which `P`
follows, and every other step break `P`. Then `P` holds in every state that a run reaches if and
only if every step of the run meets the condition. -/
theorem always_iff_along {ok : σ → ε → Prop} {Inv P : σ → Prop} (hP : ∀ s, Inv s → P s)
    (hkeep : ∀ s e s', Inv s → ok s e → step s e = some s' → Inv s')
    (hbreak : ∀ s e s', Inv s → ¬ ok s e → step s e = some s' → ¬ P s')
    {s t : σ} {es : List ε} (hs : Inv s) (hrun : run step s es = some t) :
    (∀ before u, before <+: es → run step s before = some u → P u) ↔ Along step ok s es := by
  constructor
  · intro h
    induction es generalizing s with
    | nil => trivial
    | cons e es ih =>
      obtain ⟨s', he, hrest⟩ := run_cons_eq_some.1 hrun
      have hok : ok s e := by
        by_contra hok
        exact hbreak s e s' hs hok he
          (h [e] s' (by simp) (run_cons_eq_some.2 ⟨s', he, rfl⟩))
      exact (along_cons_of_step he).2 ⟨hok, ih (hkeep s e s' hs hok he) hrest
        fun before u hbefore hu => h (e :: before) u (List.cons_prefix_cons.2 ⟨rfl, hbefore⟩)
          (run_cons_eq_some.2 ⟨s', he, hu⟩)⟩
  · rintro hok before u ⟨after, rfl⟩ hu
    exact hP u (run_invariant_along hkeep hs ((along_append hu).1 hok).1 hu)

end Runs
