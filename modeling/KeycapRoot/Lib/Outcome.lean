import Mathlib.Tactic.Common

/-!
# Calls that can fail

The outcome of a call on an object is a return or a fault. It holds the state that the object is
left in also when the call fails, since an exception undoes no assignment. `andThen` is the next
call of a sequence and `each` calls one function with each argument of a list.
-/

/-- How a call ends that does not return: it throws, or it does what the language leaves undefined
and the machine traps. -/
inductive Fault
  | exception (what : String)
  | undefined
  deriving DecidableEq, Repr

/-- A call on an object ends in a return or in a fault. The object keeps its changes either way. -/
inductive Outcome (σ α : Type)
  | ok (value : α) (state : σ)
  | error (fault : Fault) (state : σ)
  deriving DecidableEq, Repr

namespace Outcome

section AndThen

variable {σ α β : Type}

/-- The next call of a sequence runs when the one before it returns. -/
def andThen : Outcome σ α → (α → σ → Outcome σ β) → Outcome σ β
  | ok a s, f => f a s
  | error e s, _ => error e s

@[simp] theorem andThen_ok (a : α) (s : σ) (f : α → σ → Outcome σ β) :
    (ok a s).andThen f = f a s := rfl

@[simp] theorem andThen_error (e : Fault) (s : σ) (f : α → σ → Outcome σ β) :
    (error e s).andThen f = error e s := rfl

/-- A sequence returns when each of its calls does. -/
theorem andThen_eq_ok {x : Outcome σ α} {f : α → σ → Outcome σ β} {b : β} {t : σ} :
    x.andThen f = ok b t ↔ ∃ a s, x = ok a s ∧ f a s = ok b t := by
  cases x with
  | ok a s => simp
  | error e s => simp

/-- A sequence fails when its first call does, or a later one. -/
theorem andThen_eq_error {x : Outcome σ α} {f : α → σ → Outcome σ β} {e : Fault} {t : σ} :
    x.andThen f = error e t ↔ x = error e t ∨ ∃ a s, x = ok a s ∧ f a s = error e t := by
  cases x with
  | ok a s => simp
  | error e s => simp

/-- The outcome of a computation that has no value where its behaviour is undefined. -/
def ofOption : Option α → σ → Outcome σ α
  | some a, s => ok a s
  | none, s => error .undefined s

@[simp] theorem ofOption_some (a : α) (s : σ) : ofOption (some a) s = ok a s := rfl

@[simp] theorem ofOption_none (s : σ) : ofOption (none : Option α) s = error .undefined s := rfl

theorem ofOption_eq_ok {a? : Option α} {a : α} {s t : σ} :
    ofOption a? s = ok a t ↔ a? = some a ∧ s = t := by
  cases a? with
  | none => simp
  | some b => simp

/-- It throws nothing. -/
theorem ofOption_ne_exception (a? : Option α) (what : String) (s t : σ) :
    ofOption a? s ≠ error (.exception what) t := by
  cases a? with
  | none => simp
  | some b => simp

end AndThen

/-! ## One function, many arguments -/

section Each

variable {σ α ω : Type} (f : α → σ → Outcome σ (Bool × List ω))

/-- One call for each argument: all return values, and all that the calls did. -/
def each : List α → σ → Outcome σ (List Bool × List ω)
  | [], s => ok ([], []) s
  | a :: args, s =>
    (f a s).andThen fun (ret, done) s =>
      (each args s).andThen fun (rets, dones) s => ok (ret :: rets, done ++ dones) s

/-- Every call returns true, and together they did what is given and left the state given. -/
def Accepts (s : σ) (args : List α) (done : List ω) (t : σ) : Prop :=
  ∃ rets, each f args s = ok (rets, done) t ∧ ∀ ret ∈ rets, ret = true

variable {f} {s t : σ} {done : List ω}

theorem accepts_nil : Accepts f s [] done t ↔ done = [] ∧ t = s := by
  constructor
  · rintro ⟨rets, heach, -⟩
    cases heach
    exact ⟨rfl, rfl⟩
  · rintro ⟨rfl, rfl⟩
    exact ⟨[], rfl, by simp⟩

theorem accepts_cons {a : α} {args : List α} :
    Accepts f s (a :: args) done t ↔
      ∃ first rest s₁, f a s = ok (true, first) s₁ ∧ Accepts f s₁ args rest t ∧
        done = first ++ rest := by
  constructor
  · rintro ⟨rets, heach, hrets⟩
    rw [each, andThen_eq_ok] at heach
    obtain ⟨⟨ret, first⟩, s₁, hfirst, heach⟩ := heach
    rw [andThen_eq_ok] at heach
    obtain ⟨⟨rets', rest⟩, s₂, hrest, heach⟩ := heach
    cases heach
    obtain ⟨hret, hrets'⟩ := List.forall_mem_cons.1 hrets
    cases hret
    exact ⟨first, rest, s₁, hfirst, ⟨rets', hrest, hrets'⟩, rfl⟩
  · rintro ⟨first, rest, s₁, hfirst, ⟨rets, hrest, hrets⟩, rfl⟩
    refine ⟨true :: rets, ?_, List.forall_mem_cons.2 ⟨rfl, hrets⟩⟩
    rw [each, hfirst, andThen_ok, hrest]
    rfl

/-- Calls that are accepted are accepted by a function that agrees where the other one returns
true. -/
theorem Accepts.mono {g : α → σ → Outcome σ (Bool × List ω)} {args : List α}
    (hagree : ∀ a s done t, f a s = ok (true, done) t → g a s = ok (true, done) t)
    (h : Accepts f s args done t) : Accepts g s args done t := by
  induction args generalizing s done with
  | nil => exact accepts_nil.2 (accepts_nil.1 h)
  | cons a args ih =>
    obtain ⟨first, rest, s₁, ha, hrest, hdone⟩ := accepts_cons.1 h
    exact accepts_cons.2 ⟨first, rest, s₁, hagree a s first s₁ ha, ih hrest, hdone⟩

/-- One more call. -/
theorem Accepts.concat {args : List α} (h : Accepts f s args done t) {a : α} {more : List ω}
    {u : σ} (ha : f a t = ok (true, more) u) : Accepts f s (args ++ [a]) (done ++ more) u := by
  induction args generalizing s done with
  | nil =>
    obtain ⟨rfl, rfl⟩ := accepts_nil.1 h
    exact accepts_cons.2 ⟨more, [], u, ha, accepts_nil.2 ⟨rfl, rfl⟩, (List.append_nil _).symm⟩
  | cons b args ih =>
    obtain ⟨first, rest, s₁, hb, hrest, rfl⟩ := accepts_cons.1 h
    exact accepts_cons.2 ⟨first, rest ++ more, s₁, hb, ih hrest, List.append_assoc ..⟩

/-- What accepted calls do is determined. -/
theorem Accepts.unique {args : List α} (h : Accepts f s args done t) {done' : List ω} {t' : σ}
    (h' : Accepts f s args done' t') : done = done' ∧ t = t' := by
  obtain ⟨rets, heach, -⟩ := h
  obtain ⟨rets', heach', -⟩ := h'
  rw [heach, ok.injEq, Prod.mk.injEq] at heach'
  exact ⟨heach'.1.2, heach'.2⟩

end Each

end Outcome
