import Mathlib.Algebra.Group.Nat.Defs
import Mathlib.Data.List.Basic
import Mathlib.Tactic.Common

/-!
# Rows

A list laid out in rows of one width: all but the last are full, and they are the list again
(`flatten_rows`).
-/

namespace Rows

variable {α : Type*}

/-- The rows of `width` elements that a list has, the last one with what is left. -/
def rows (width : Nat) (l : List α) : List (List α) :=
  (List.range ((l.length + (width - 1)) / width)).map fun k => (l.drop (width * k)).take width

theorem length_rows (width : Nat) (l : List α) :
    (rows width l).length = (l.length + (width - 1)) / width := by
  rw [rows, List.length_map, List.length_range]

@[simp] theorem rows_nil (width : Nat) : rows width ([] : List α) = [] := by
  rw [rows, List.length_nil, Nat.zero_add]
  cases width with
  | zero => rfl
  | succ width => rw [Nat.div_eq_of_lt (by omega)]; rfl

/-- A full row in front. -/
theorem rows_append {width : Nat} (hwidth : 0 < width) {row : List α} (hrow : row.length = width)
    (l : List α) : rows width (row ++ l) = row :: rows width l := by
  have hcount : ((row ++ l).length + (width - 1)) / width =
      (l.length + (width - 1)) / width + 1 := by
    rw [List.length_append, hrow, ← Nat.add_div_right _ hwidth]
    congr 1
    omega
  rw [rows, hcount, List.range_succ_eq_map, List.map_cons, List.map_map, rows]
  refine List.cons_eq_cons.2 ⟨?_, List.map_congr_left ?_⟩
  · rw [Nat.mul_zero, List.drop_zero, ← hrow, List.take_left]
  · intro k _
    have hskip : width * (k + 1) = row.length + width * k := by
      rw [hrow, Nat.mul_succ, Nat.add_comm]
    simp only [Function.comp_apply, hskip, List.drop_length_add_append]

/-- A last row. -/
theorem rows_of_le {width : Nat} {row : List α} (hne : row ≠ []) (hrow : row.length ≤ width) :
    rows width row = [row] := by
  have hpos := List.length_pos_iff.2 hne
  have hcount : (row.length + (width - 1)) / width = 1 :=
    Nat.div_eq_of_lt_le (by omega) (by omega)
  rw [rows, hcount]
  simp [List.take_of_length_le hrow]

theorem flatten_rows {width : Nat} (hwidth : 0 < width) (l : List α) :
    (rows width l).flatten = l := by
  induction h : l.length using Nat.strongRecOn generalizing l with
  | _ n ih =>
    by_cases hnil : l = []
    · rw [hnil, rows_nil, List.flatten_nil]
    · by_cases hle : l.length ≤ width
      · rw [rows_of_le hnil hle, List.flatten_singleton]
      · have hrow : (l.take width).length = width := List.length_take_of_le (by omega)
        have hrest : (l.drop width).length < n := by
          rw [List.length_drop]
          omega
        conv_lhs => rw [← List.take_append_drop width l]
        rw [rows_append hwidth hrow, List.flatten_cons, ih _ hrest _ rfl, List.take_append_drop]

theorem getElem?_rows {width : Nat} {l row : List α} {k : Nat} (h : (rows width l)[k]? = some row) :
    row = (l.drop (width * k)).take width := by
  rw [rows, List.getElem?_map] at h
  obtain ⟨i, hi, rfl⟩ := Option.map_eq_some_iff.1 h
  obtain ⟨hlt, hsame⟩ := List.getElem?_eq_some_iff.1 hi
  rw [← hsame, List.getElem_range]

/-- No row is empty or longer than the others. -/
theorem of_mem_rows {width : Nat} (hwidth : 0 < width) {l row : List α} (h : row ∈ rows width l) :
    row ≠ [] ∧ row.length ≤ width := by
  obtain ⟨k, hk, rfl⟩ := List.mem_map.1 h
  rw [List.mem_range, Nat.lt_div_iff_mul_lt hwidth] at hk
  refine ⟨?_, List.length_take_le _ _⟩
  rw [← List.length_pos_iff, List.length_take, List.length_drop]
  have hcomm := Nat.mul_comm width k
  omega

end Rows
