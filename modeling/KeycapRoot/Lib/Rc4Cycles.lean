import KeycapRoot.Lib.Rc4
import Mathlib.Algebra.Group.Fin.Basic
import Mathlib.Dynamics.PeriodicPts.Lemmas
import Mathlib.Data.Fintype.Perm
import Mathlib.Data.Fintype.Prod

/-!
# Cycles of RC4

A step of the generator can be undone (`previous_next`), so every state comes back, and what is put
out is periodic from the first number on (`exists_cycle`). The states with `j = i + 1` and `1` at
place `j` follow one another in short cycles; no step leads into them from elsewhere
(`finney_next_iff`), and the generator does not start in one.
-/

namespace Rc4

variable {n : Nat}

/-- A state is a permutation and two numbers. -/
def State.equiv : State n ≃ Equiv.Perm (Fin n) × Fin n × Fin n where
  toFun s := (s.S, s.i, s.j)
  invFun p := ⟨p.1, p.2.1, p.2.2⟩
  left_inv _ := rfl
  right_inv _ := rfl

instance : Fintype (State n) := .ofEquiv _ State.equiv.symm

theorem card_state : Fintype.card (State n) = n.factorial * (n * n) := by
  rw [Fintype.card_congr State.equiv, Fintype.card_prod, Fintype.card_prod, Fintype.card_perm,
    Fintype.card_fin]

variable [NeZero n]

/-! ## Steps back -/

/-- The state before a step. -/
def previous (t : State n) : State n where
  S := t.S * Equiv.swap t.i t.j
  i := t.i - 1
  j := t.j - t.S t.j

/-- The swap of a step brings the element that was added to `j` to place `j`. -/
theorem next_S_j (s : State n) : (next s).S (next s).j = s.S (s.i + 1) := by
  rw [next, Equiv.Perm.mul_apply, Equiv.swap_apply_right]

theorem previous_next (s : State n) : previous (next s) = s := by
  obtain ⟨S, i, j⟩ := s
  have hj : (next ⟨S, i, j⟩).j - (next ⟨S, i, j⟩).S (next ⟨S, i, j⟩).j = j := by
    rw [next_S_j]
    exact add_sub_cancel_right j _
  have hi : (next ⟨S, i, j⟩).i - 1 = i := add_sub_cancel_right i 1
  have hS : (next ⟨S, i, j⟩).S * Equiv.swap (next ⟨S, i, j⟩).i (next ⟨S, i, j⟩).j = S := by
    rw [next, mul_assoc, Equiv.swap_mul_self, mul_one]
  rw [previous, hj, hi, hS]

theorem next_injective : Function.Injective (next : State n → State n) :=
  Function.LeftInverse.injective previous_next

/-- **Cycles.** Every state comes back, after no more steps than there are states. -/
theorem exists_cycle (s : State n) : ∃ k, 0 < k ∧ k ≤ n.factorial * (n * n) ∧ next^[k] s = s := by
  have hmem := next_injective.mem_periodicPts s
  refine ⟨_, Function.minimalPeriod_pos_of_mem_periodicPts hmem, ?_,
    Function.isPeriodicPt_minimalPeriod next s⟩
  rw [← card_state]
  exact Function.minimalPeriod_le_card

/-! ## Short cycles -/

/-- The states from which every step moves the `1` on by one place. -/
def Finney (s : State n) : Prop := s.j = s.i + 1 ∧ s.S s.j = 1

/-- A step leads from the short cycles to the short cycles, and from elsewhere elsewhere. -/
theorem finney_next_iff (s : State n) : Finney (next s) ↔ Finney s := by
  have hi : (next s).i = s.i + 1 := rfl
  have hj : (next s).j = s.j + s.S (s.i + 1) := rfl
  rw [Finney, Finney, next_S_j, hi, hj]
  constructor
  · rintro ⟨hnext, hone⟩
    rw [hone] at hnext
    have hsame : s.j = s.i + 1 := add_right_cancel hnext
    exact ⟨hsame, hsame ▸ hone⟩
  · rintro ⟨hsame, hone⟩
    rw [hsame] at hone
    exact ⟨by rw [hone, hsame], hone⟩

theorem finney_iterate_iff (k : Nat) (s : State n) : Finney (next^[k] s) ↔ Finney s := by
  induction k generalizing s with
  | zero => exact Iff.rfl
  | succ k ih => rw [Function.iterate_succ_apply, ih, finney_next_iff]

/-- **Short cycles.** The generator never comes to one. -/
theorem not_finney_run (hn : 1 < n) (key : Nat → Fin n) (k : Nat) :
    ¬ Finney (next^[k] (start key)) := by
  rw [finney_iterate_iff]
  rintro ⟨hstart, -⟩
  rw [start_i, start_j, zero_add] at hstart
  have hval := congrArg Fin.val hstart
  rw [Fin.val_zero, Fin.val_one', Nat.mod_eq_of_lt hn] at hval
  exact absurd hval (by decide)

end Rc4
