import Mathlib.Data.List.Basic
import Mathlib.Tactic.Common

/-!
# Fields

The fields of a list are what its delimiters end; what is behind the last delimiter is a field too,
unless there is nothing behind it. Joined again they are the list without a delimiter at its end
(`intercalate_fields`), and joined lists are the fields again exactly if they contain no delimiter
and the last one is not empty (`fields_intercalate_iff`).
-/

namespace Fields

variable {α : Type*} [DecidableEq α] {d : α}

def fields (d : α) (l : List α) : List (List α) :=
  if (l.splitOn d).getLast? = some [] then (l.splitOn d).dropLast else l.splitOn d

@[simp] theorem fields_nil : fields d [] = [] := by
  simp [fields]

theorem fields_of_notMem {l : List α} (h : d ∉ l) (hne : l ≠ []) : fields d l = [l] := by
  simp [fields, List.splitOn_eq_singleton h, hne]

theorem fields_append_cons {field : List α} (h : d ∉ field) (rest : List α) :
    fields d (field ++ d :: rest) = field :: fields d rest := by
  obtain ⟨first, others, hsplit⟩ := List.exists_cons_of_ne_nil (List.splitOn_ne_nil d rest)
  unfold fields
  rw [List.splitOn_append_cons_self_of_not_mem h, hsplit, List.getLast?_cons_cons,
    List.dropLast_cons_cons]
  split <;> rfl

/-- A list is empty, has no delimiter, or has a field in front that a delimiter ends. -/
theorem delimited_induction {motive : List α → Prop} (d : α) (nil : motive [])
    (last : ∀ l, l ≠ [] → d ∉ l → motive l)
    (ended : ∀ field rest, d ∉ field → motive rest → motive (field ++ d :: rest)) (l : List α) :
    motive l := by
  induction h : l.length using Nat.strongRecOn generalizing l with
  | _ n ih =>
    by_cases hmem : d ∈ l
    · obtain ⟨field, rest, rfl, hfield⟩ := List.eq_append_cons_of_mem hmem
      have hshort : rest.length < n := by
        rw [← h, List.length_append, List.length_cons]
        omega
      exact ended field rest hfield (ih _ hshort rest rfl)
    · by_cases hnil : l = []
      · rw [hnil]
        exact nil
      · exact last l hnil hmem

theorem fields_eq_nil_iff {l : List α} : fields d l = [] ↔ l = [] := by
  induction l using delimited_induction d with
  | nil => simp
  | last l hne hmem => simp [fields_of_notMem hmem hne, hne]
  | ended field rest hfield _ => simp [fields_append_cons hfield]

theorem notMem_of_mem_fields {l : List α} : ∀ field ∈ fields d l, d ∉ field := by
  induction l using delimited_induction d with
  | nil => simp
  | last l hne hmem => simpa [fields_of_notMem hmem hne] using hmem
  | ended field rest hfield ih =>
    rw [fields_append_cons hfield]
    exact List.forall_mem_cons.2 ⟨hfield, ih⟩

/-- **Joining.** The joined fields are the list without a delimiter at its end. -/
theorem intercalate_fields (l : List α) :
    [d].intercalate (fields d l) = if l.getLast? = some d then l.dropLast else l := by
  induction l using delimited_induction d with
  | nil => simp
  | last l hne hmem =>
    have hlast : l.getLast? ≠ some d := fun hlast => hmem (List.mem_of_getLast? hlast)
    rw [fields_of_notMem hmem hne, List.intercalate_singleton, if_neg hlast]
  | ended field rest hfield ih =>
    rw [fields_append_cons hfield]
    by_cases hrest : rest = []
    · simp [hrest]
    · have hlast : (field ++ d :: rest).getLast? = rest.getLast? := by
        rw [List.getLast?_append, List.getLast?_cons_of_ne_nil hrest,
          List.getLast?_eq_some_getLast hrest, Option.some_or]
      have hdrop : (field ++ d :: rest).dropLast = field ++ d :: rest.dropLast := by
        rw [List.dropLast_append_of_ne_nil (List.cons_ne_nil d rest),
          List.dropLast_cons_of_ne_nil hrest]
      rw [List.intercalate_cons_of_ne_nil (mt fields_eq_nil_iff.1 hrest), ih, hlast, hdrop]
      split <;> simp

/-- **Splitting.** Joined lists are the fields again exactly if they contain no delimiter and the
last one is not empty. -/
theorem fields_intercalate_iff (v : List (List α)) :
    fields d ([d].intercalate v) = v ↔
      v = [] ∨ (∀ field ∈ v, d ∉ field) ∧ v.getLast? ≠ some [] := by
  by_cases hnil : v = []
  · simp [hnil]
  · rw [or_iff_right hnil]
    constructor
    · intro h
      have hmem : ∀ field ∈ v, d ∉ field := by
        rw [← h]
        exact notMem_of_mem_fields
      refine ⟨hmem, ?_⟩
      intro hlast
      rw [fields, List.splitOn_intercalate d hmem hnil, if_pos hlast] at h
      have hlength := congrArg List.length h
      rw [List.length_dropLast] at hlength
      have hpos := List.length_pos_iff.2 hnil
      omega
    · rintro ⟨hmem, hlast⟩
      rw [fields, List.splitOn_intercalate d hmem hnil, if_neg hlast]

end Fields
