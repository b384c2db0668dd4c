import Mathlib.Logic.Equiv.Basic
import Mathlib.Logic.Function.Iterate
import Mathlib.Algebra.Group.End
import Mathlib.Algebra.GroupWithZero.Nat
import Mathlib.Tactic.Common

/-!
# RC4

The stream cipher over the numbers below `n`. Its state is a permutation with two indices. The key
schedule makes one swap for each number, and each step of the generator makes one swap and puts one
number out.
-/

namespace Rc4

variable {n : Nat} [NeZero n]

/-- What is added at a step of the key schedule: the key, repeated. -/
def repeatKey {α : Type*} (key : List α) (hkey : key ≠ []) (t : Nat) : α :=
  key.get ⟨t % key.length, Nat.mod_lt _ (List.length_pos_iff.2 hkey)⟩

/-- The permutation `S` and the index `j` after the first `t` steps of the key schedule. -/
def scheduleSteps (key : Nat → Fin n) : Nat → Equiv.Perm (Fin n) × Fin n
  | 0 => (1, 0)
  | t + 1 =>
    let (S, j) := scheduleSteps key t
    let i := Fin.ofNat n t
    let j := j + S i + key t
    (S * Equiv.swap i j, j)

theorem scheduleSteps_succ (key : Nat → Fin n) (t : Nat) :
    scheduleSteps key (t + 1) =
      ((scheduleSteps key t).1 * Equiv.swap (Fin.ofNat n t)
          ((scheduleSteps key t).2 + (scheduleSteps key t).1 (Fin.ofNat n t) + key t),
        (scheduleSteps key t).2 + (scheduleSteps key t).1 (Fin.ofNat n t) + key t) := rfl

/-- The key schedule. -/
def keySchedule (key : Nat → Fin n) : Equiv.Perm (Fin n) := (scheduleSteps key n).1

structure State (n : Nat) where
  S : Equiv.Perm (Fin n)
  i : Fin n
  j : Fin n

/-- The generator behind the key schedule. -/
def start (key : Nat → Fin n) : State n where
  S := keySchedule key
  i := 0
  j := 0

@[simp] theorem start_S (key : Nat → Fin n) : (start key).S = keySchedule key := rfl

@[simp] theorem start_i (key : Nat → Fin n) : (start key).i = 0 := rfl

@[simp] theorem start_j (key : Nat → Fin n) : (start key).j = 0 := rfl

/-- A step of the generator. -/
def next (s : State n) : State n :=
  let i := s.i + 1
  let j := s.j + s.S i
  { S := s.S * Equiv.swap i j, i, j }

/-- The number that a step put out. -/
def output (s : State n) : Fin n := s.S (s.S s.i + s.S s.j)

/-- The numbers that `k` steps put out. -/
def keystream : Nat → State n → List (Fin n)
  | 0, _ => []
  | k + 1, s => output (next s) :: keystream k (next s)

@[simp] theorem length_keystream (k : Nat) (s : State n) : (keystream k s).length = k := by
  induction k generalizing s with
  | zero => rfl
  | succ k ih => rw [keystream, List.length_cons, ih]

end Rc4
