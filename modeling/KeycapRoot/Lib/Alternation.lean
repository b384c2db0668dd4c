import Mathlib.Tactic.Common

/-!
# Every other element

`evens` are the elements at the places 0, 2, 4, … of a list and `odds` those at 1, 3, 5, ….
A stable partition in place whose predicate is asked about places and alternates between true and
false brings the evens in front of the odds (`take_stablePartition`, `drop_stablePartition`);
`interleave` is the list whose evens and odds are given.
-/

namespace Alternation

variable {α : Type*}

def evens : List α → List α
  | [] => []
  | [a] => [a]
  | a :: _ :: l => a :: evens l

def odds (l : List α) : List α := evens l.tail

@[simp] theorem evens_nil : evens ([] : List α) = [] := rfl

@[simp] theorem odds_nil : odds ([] : List α) = [] := rfl

@[simp] theorem evens_cons (a : α) (l : List α) : evens (a :: l) = a :: odds l := by
  cases l with
  | nil => rfl
  | cons b l => rfl

@[simp] theorem odds_cons (a : α) (l : List α) : odds (a :: l) = evens l := rfl

theorem getElem?_evens_odds (l : List α) (i : Nat) :
    (evens l)[i]? = l[2 * i]? ∧ (odds l)[i]? = l[2 * i + 1]? := by
  induction l generalizing i with
  | nil => simp
  | cons a l ih =>
    constructor
    · rw [evens_cons]
      cases i with
      | zero => rfl
      | succ i => simpa [Nat.mul_succ] using (ih i).2
    · simpa using (ih i).1

/-- The elements of two lists in turn. -/
def interleave (xs ys : List α) : List α := (xs.zip ys).flatMap fun p => [p.1, p.2]

@[simp] theorem interleave_cons (x y : α) (xs ys : List α) :
    interleave (x :: xs) (y :: ys) = x :: y :: interleave xs ys := rfl

/-- Interleaving two lists of the same length gives a list whose evens and odds they are. -/
theorem evens_odds_interleave {xs ys : List α} (h : xs.length = ys.length) :
    evens (interleave xs ys) = xs ∧ odds (interleave xs ys) = ys := by
  induction xs generalizing ys with
  | nil =>
    rw [List.eq_nil_of_length_eq_zero h.symm]
    exact ⟨rfl, rfl⟩
  | cons x xs ih =>
    cases ys with
    | nil => simp at h
    | cons y ys =>
      obtain ⟨hevens, hodds⟩ := ih (Nat.succ.inj h)
      simp [hevens, hodds]

theorem length_interleave (xs ys : List α) :
    (interleave xs ys).length = 2 * min xs.length ys.length := by
  induction xs generalizing ys with
  | nil => simp [interleave]
  | cons x xs ih =>
    cases ys with
    | nil => simp [interleave]
    | cons y ys =>
      simp only [interleave_cons, List.length_cons, ih]
      omega

/-! ## Partitions -/

/-- A stable partition of the elements from the place `first` on. The predicate is asked once about
the place of each element, before the element is moved. The result is the list that is left, and
the place where the elements begin that do not satisfy the predicate. -/
def stablePartition (pred : Nat → Bool) (first : Nat) (l : List α) : List α × Nat :=
  let placed := (l.drop first).zipIdx first
  let front := (placed.filter fun p => pred p.2).map Prod.fst
  let back := (placed.filter fun p => !pred p.2).map Prod.fst
  (l.take first ++ (front ++ back), first + front.length)

section Alternating

variable (pred : Nat → Bool)

/-- The elements that satisfy an alternating predicate are the evens or the odds, as it begins. -/
theorem filter_zipIdx_alternating (l : List α) {k : Nat}
    (halternates : ∀ n, k ≤ n → pred (n + 1) = !pred n) :
    ((l.zipIdx k).filter fun p => pred p.2).map Prod.fst = if pred k then evens l else odds l := by
  induction l generalizing k with
  | nil => simp
  | cons a l ih =>
    have hrest := ih fun n hn => halternates n (Nat.le_of_succ_le hn)
    rw [halternates k (Nat.le_refl k)] at hrest
    rw [List.zipIdx_cons, List.filter_cons]
    cases hk : pred k with
    | true => simpa [hk] using hrest
    | false => simpa [hk] using hrest

variable {first : Nat} (hfirst : pred first = true)
  (halternates : ∀ n, first ≤ n → pred (n + 1) = !pred n)

include hfirst halternates

theorem stablePartition_alternating (l : List α) :
    stablePartition pred first l =
      (l.take first ++ (evens (l.drop first) ++ odds (l.drop first)),
        first + (evens (l.drop first)).length) := by
  have hfront := filter_zipIdx_alternating pred (l.drop first) halternates
  have hback := filter_zipIdx_alternating (fun n => !pred n) (l.drop first)
    fun n hn => congrArg (!·) (halternates n hn)
  rw [hfirst] at hfront hback
  rw [stablePartition, hfront, hback]
  rfl

/-- The evens lie from `first` to the bound. -/
theorem take_stablePartition {l : List α} (hle : first ≤ l.length) :
    ((stablePartition pred first l).1.take (stablePartition pred first l).2).drop first =
      evens (l.drop first) := by
  have hlength : (l.take first).length = first := by rw [List.length_take, Nat.min_eq_left hle]
  rw [stablePartition_alternating pred hfirst halternates, ← List.append_assoc]
  simp only
  rw [List.take_left' (by rw [List.length_append, hlength]), List.drop_left' hlength]

/-- The odds lie from the bound on. -/
theorem drop_stablePartition {l : List α} (hle : first ≤ l.length) :
    (stablePartition pred first l).1.drop (stablePartition pred first l).2 =
      odds (l.drop first) := by
  have hlength : (l.take first).length = first := by rw [List.length_take, Nat.min_eq_left hle]
  rw [stablePartition_alternating pred hfirst halternates, ← List.append_assoc]
  simp only
  rw [List.drop_left' (by rw [List.length_append, hlength])]

end Alternating

end Alternation
