import Mathlib.Logic.Function.Iterate
import Mathlib.Tactic.Common

/-!
# Ciphers that mask their data with a keystream

A keystream cipher has a state that moves on by `next`, whatever the data, and masks each element of
the data with the state it has then. The end state depends on the length of the data alone
(`process_snd`), data may be cut into pieces anywhere (`flatten_processAll`), and when masking twice
is masking not at all, so is processing twice (`process_process`).
-/

namespace Keystream

variable {σ α : Type*} (next : σ → σ) (mask : σ → α → α)

/-- The data with each element masked, and the state behind it. -/
def process : List α → σ → List α × σ
  | [], s => ([], s)
  | a :: data, s =>
    let s := next s
    let (rest, t) := process data s
    (mask s a :: rest, t)

theorem process_cons (a : α) (data : List α) (s : σ) :
    process next mask (a :: data) s =
      (mask (next s) a :: (process next mask data (next s)).1,
        (process next mask data (next s)).2) := rfl

/-- One piece of data after another. -/
def processAll : List (List α) → σ → List (List α) × σ
  | [], s => ([], s)
  | data :: pieces, s =>
    let (first, s) := process next mask data s
    let (rest, t) := processAll pieces s
    (first :: rest, t)

/-- The state moves on once for each element. -/
theorem process_snd (data : List α) (s : σ) :
    (process next mask data s).2 = next^[data.length] s := by
  induction data generalizing s with
  | nil => rfl
  | cons a data ih => rw [process_cons, ih, List.length_cons, Function.iterate_succ_apply]

theorem process_append (data more : List α) (s : σ) :
    process next mask (data ++ more) s =
      ((process next mask data s).1 ++
          (process next mask more (process next mask data s).2).1,
        (process next mask more (process next mask data s).2).2) := by
  induction data generalizing s with
  | nil => rfl
  | cons a data ih =>
    rw [List.cons_append, process_cons, ih, process_cons]
    rfl

/-- **Pieces.** Data cut into pieces is processed as it would be in one. -/
theorem flatten_processAll (pieces : List (List α)) (s : σ) :
    ((processAll next mask pieces s).1.flatten, (processAll next mask pieces s).2) =
      process next mask pieces.flatten s := by
  induction pieces generalizing s with
  | nil => rfl
  | cons data pieces ih =>
    rw [List.flatten_cons, process_append, ← ih]
    rfl

/-- **Twice.** With a mask that undoes itself, processing undoes itself and comes to the same
state. -/
theorem process_process (hmask : ∀ s a, mask s (mask s a) = a) (data : List α) (s : σ) :
    process next mask (process next mask data s).1 s =
      (data, (process next mask data s).2) := by
  induction data generalizing s with
  | nil => rfl
  | cons a data ih => rw [process_cons, process_cons, ih, hmask]

end Keystream
