import Mathlib.Data.List.TakeWhile
import KeycapRoot.Lib.Fields

/-!
# Strings

A string is its bytes. `explode` reads its fields from a stream until there are no more, and so it
does not see the empty field behind a delimiter at the end; `join` writes fields with delimiters
between them (`explode_join_round_trips`).
-/

namespace KeycapRoot.Utility

/-! ## Fields -/

/-- A `std::istringstream` with what is not read of its string. -/
structure InputStream where
  rest : List UInt8
  eof : Bool := false
  fail : Bool := false

/-- `std::getline(ss, token, delim)`, the token and the stream behind it. It fails where there was
nothing to extract, not even a delimiter. -/
def InputStream.getline (ss : InputStream) (delim : UInt8) : List UInt8 × InputStream :=
  if ss.eof || ss.fail then ([], { ss with fail := true })
  else
    let token := ss.rest.takeWhile (· != delim)
    match ss.rest.dropWhile (· != delim) with
    | _ :: rest => (token, { rest })
    | [] => (token, { rest := [], eof := true, fail := token.isEmpty })

/-- What is left to do of a loop that reads lines. -/
def InputStream.size (ss : InputStream) : Nat := ss.rest.length + if ss.eof then 0 else 1

theorem InputStream.size_getline_lt {ss : InputStream} {delim : UInt8}
    (h : ¬ (ss.getline delim).2.fail = true) : (ss.getline delim).2.size < ss.size := by
  unfold getline at h ⊢
  by_cases hgood : (ss.eof || ss.fail) = true
  · rw [if_pos hgood] at h
    exact absurd rfl h
  · rw [if_neg hgood]
    have heof : ss.eof = false := by
      rw [Bool.or_eq_true, not_or, Bool.not_eq_true] at hgood
      exact hgood.1
    have hle : (ss.rest.dropWhile (· != delim)).length ≤ ss.rest.length :=
      (List.dropWhile_sublist _).length_le
    cases hdrop : ss.rest.dropWhile (· != delim) with
    | nil => simp [size, heof]
    | cons c rest =>
      rw [hdrop, List.length_cons] at hle
      simp [size, heof]
      omega

/-- The loop of `explode`. -/
def explodeFrom (delim : UInt8) (ss : InputStream) (result : List (List UInt8)) :
    List (List UInt8) :=
  if (ss.getline delim).2.fail = true then result
  else explodeFrom delim (ss.getline delim).2 (result ++ [(ss.getline delim).1])
termination_by ss.size
decreasing_by exact InputStream.size_getline_lt ‹_›

/-- `explode(str, delim)`. -/
def explode (str : List UInt8) (delim : UInt8 := 32) : List (List UInt8) :=
  explodeFrom delim { rest := str } []

/-- `join(vec, delim)`: the string and whether the first element is still to come. -/
def join (vec : List (List UInt8)) (delim : UInt8 := 32) : List UInt8 :=
  (vec.foldl
    (fun (str, first) s =>
      let str := if first then str else str ++ [delim]
      (str ++ s, false))
    (([] : List UInt8), true)).1

section Fields

variable {delim : UInt8}

open Fields

theorem bne_of_notMem {str : List UInt8} (h : delim ∉ str) : ∀ c ∈ str, (c != delim) = true := by
  intro c hc
  exact bne_iff_ne.2 fun hsame => h (hsame ▸ hc)

theorem getline_append_cons {token : List UInt8} (h : delim ∉ token) (rest : List UInt8) :
    ({ rest := token ++ delim :: rest } : InputStream).getline delim = (token, { rest }) := by
  have hnone := bne_of_notMem h
  simp [InputStream.getline, List.takeWhile_append_of_pos hnone, List.dropWhile_append_of_pos hnone]

theorem getline_of_notMem {rest : List UInt8} (h : delim ∉ rest) :
    ({ rest } : InputStream).getline delim =
      (rest, { rest := [], eof := true, fail := rest.isEmpty }) := by
  have hnone := bne_of_notMem h
  have htake : rest.takeWhile (· != delim) = rest := List.takeWhile_eq_self_iff.2 hnone
  have hdrop : rest.dropWhile (· != delim) = [] := List.dropWhile_eq_nil_iff.2 hnone
  simp [InputStream.getline, htake, hdrop]

theorem explodeFrom_eq (str : List UInt8) (result : List (List UInt8)) :
    explodeFrom delim { rest := str } result = result ++ fields delim str := by
  induction str using delimited_induction delim generalizing result with
  | nil =>
    rw [explodeFrom, getline_of_notMem List.not_mem_nil, fields_nil, List.append_nil]
    exact if_pos rfl
  | last str hne hmem =>
    -- the next call fails at the end of the stream
    rw [explodeFrom, getline_of_notMem hmem, fields_of_notMem hmem hne]
    rw [if_neg (by simpa using hne), explodeFrom]
    exact if_pos rfl
  | ended token rest htoken ih =>
    rw [explodeFrom, getline_append_cons htoken, fields_append_cons htoken]
    rw [if_neg (by simp), ih, List.append_assoc, List.singleton_append]

/-- The tokens are the fields. -/
theorem explode_eq (str : List UInt8) : explode str delim = fields delim str :=
  explodeFrom_eq str []

theorem intercalate_cons_eq (first : List UInt8) (vec : List (List UInt8)) :
    [delim].intercalate (first :: vec) = first ++ vec.flatMap fun s => delim :: s := by
  induction vec generalizing first with
  | nil => simp
  | cons s vec ih => rw [List.intercalate_cons_cons, ih, List.flatMap_cons]; simp

theorem join_eq (vec : List (List UInt8)) : join vec delim = [delim].intercalate vec := by
  -- behind the first element each one comes with a delimiter in front
  have hrest (vec : List (List UInt8)) (str : List UInt8) :
      (vec.foldl
        (fun ((str : List UInt8), first) s =>
          let str := if first then str else str ++ [delim]
          (str ++ s, false))
        (str, false)).1 = str ++ vec.flatMap fun s => delim :: s := by
    induction vec generalizing str with
    | nil => simp
    | cons s vec ih => simp [ih]
  cases vec with
  | nil => rfl
  | cons s vec => exact (hrest vec s).trans (intercalate_cons_eq s vec).symm

end Fields

/-- **Round trips.** To explode and to join gives a string back without a delimiter at its end, and
to join and to explode gives a list back exactly if it is empty, or no element has the delimiter and
the last one is not empty. -/
theorem explode_join_round_trips (delim : UInt8) :
    (∀ s, join (explode s delim) delim = if s.getLast? = some delim then s.dropLast else s) ∧
    ∀ v, explode (join v delim) delim = v ↔
      v = [] ∨ (∀ s ∈ v, delim ∉ s) ∧ v.getLast? ≠ some [] := by
  constructor
  · intro s
    rw [join_eq, explode_eq, Fields.intercalate_fields]
  · intro v
    rw [join_eq, explode_eq, Fields.fields_intercalate_iff]

/-! ## Cases -/

/-- `std::islower` in the "C" locale. -/
def islower (c : UInt8) : Bool := 97 ≤ c && c ≤ 122

/-- `std::toupper` in the "C" locale, which is taken to leave the bytes from 128 on alone: as a
`char` they are negative. -/
def toupper (c : UInt8) : UInt8 := if islower c then c - 32 else c

def toUpper (s : List UInt8) : List UInt8 := s.map toupper

theorem toupper_eq_self_iff (c : UInt8) : toupper c = c ↔ islower c = false := by
  unfold toupper
  split
  · next hlower =>
    refine iff_of_false ?_ (by simp [hlower])
    grind
  · next hlower => simpa using hlower

@[simp]
theorem length_toUpper (s : List UInt8) : (toUpper s).length = s.length := List.length_map _

theorem toUpper_eq_self_iff (s : List UInt8) : toUpper s = s ↔ ∀ c ∈ s, islower c = false := by
  unfold toUpper
  induction s with
  | nil => simp
  | cons c s ih =>
    rw [List.map_cons, List.cons_eq_cons, toupper_eq_self_iff, ih, List.forall_mem_cons]

end KeycapRoot.Utility
