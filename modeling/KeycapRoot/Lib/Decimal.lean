import Mathlib.Algebra.Group.Nat.Defs
import Mathlib.Tactic.Common

/-!
# Decimal digits at a fixed width

`fixed width n` is a number in decimal digits with zeros in front. A string of digits is given by
its length and its value (`ofDigitChars_inj`), so `fixed` writes the digits that a value was read
from (`fixed_ofDigitChars`).
-/

namespace Decimal

/-- The decimal digits of `n`, with zeros in front up to `width`. -/
def fixed (width n : Nat) : List Char := List.leftpad width '0' (Nat.toDigits 10 n)

theorem isDigit_zero : '0'.isDigit = true := rfl

theorem length_fixed {width n : Nat} (hwidth : 0 < width) (h : n < 10 ^ width) :
    (fixed width n).length = width := by
  have hle := (Nat.length_toDigits_le_iff (by decide) hwidth).2 h
  rw [fixed, List.length_leftpad, Nat.max_eq_left hle]

theorem fixed_ne_nil (width n : Nat) : fixed width n ≠ [] :=
  List.append_ne_nil_of_right_ne_nil _ Nat.toDigits_ne_nil

theorem isDigit_of_mem_fixed {width n : Nat} : ∀ c ∈ fixed width n, c.isDigit = true := by
  intro c hc
  rcases List.mem_append.1 hc with hzero | hdigit
  · rw [List.eq_of_mem_replicate hzero]
    exact isDigit_zero
  · exact Nat.isDigit_of_mem_toDigits (by decide) (by decide) hdigit

theorem ofDigitChars_fixed (width n : Nat) : Nat.ofDigitChars 10 (fixed width n) 0 = n := by
  rw [fixed, List.leftpad, Nat.ofDigitChars_append, Nat.ofDigitChars_replicate_zero, Nat.mul_zero,
    Nat.ofDigitChars_ten_toDigits]

theorem ofDigitChars_cons (c : Char) (l : List Char) :
    Nat.ofDigitChars 10 (c :: l) 0 =
      10 ^ l.length * (c.toNat - 48) + Nat.ofDigitChars 10 l 0 := by
  rw [Nat.ofDigitChars_cons, Nat.ofDigitChars_eq_ofDigitChars_zero, Nat.mul_zero, Nat.zero_add]
  rfl

/-- The value of a digit. -/
theorem digit_bounds {c : Char} (hc : c.isDigit = true) : 48 ≤ c.toNat ∧ c.toNat ≤ 57 :=
  Char.isDigit_iff_toNat.1 hc

theorem ofDigitChars_lt {l : List Char} (hl : ∀ c ∈ l, c.isDigit = true) :
    Nat.ofDigitChars 10 l 0 < 10 ^ l.length := by
  induction l with
  | nil => simp
  | cons c l ih =>
    obtain ⟨hc, hrest⟩ := List.forall_mem_cons.1 hl
    have hlt := ih hrest
    have hdigit : c.toNat - 48 + 1 ≤ 10 := by
      have := digit_bounds hc
      omega
    rw [ofDigitChars_cons, List.length_cons, Nat.pow_succ]
    calc 10 ^ l.length * (c.toNat - 48) + Nat.ofDigitChars 10 l 0
        < 10 ^ l.length * (c.toNat - 48) + 10 ^ l.length := Nat.add_lt_add_left hlt _
      _ = 10 ^ l.length * (c.toNat - 48 + 1) := (Nat.mul_succ _ _).symm
      _ ≤ 10 ^ l.length * 10 := Nat.mul_le_mul_left _ hdigit

/-- Strings of equally many digits are equal when their values are. -/
theorem ofDigitChars_inj {l m : List Char} (hlength : l.length = m.length)
    (hl : ∀ c ∈ l, c.isDigit = true) (hm : ∀ c ∈ m, c.isDigit = true)
    (h : Nat.ofDigitChars 10 l 0 = Nat.ofDigitChars 10 m 0) : l = m := by
  induction l generalizing m with
  | nil => exact (List.eq_nil_of_length_eq_zero hlength.symm).symm
  | cons c l ih =>
    cases m with
    | nil => simp at hlength
    | cons d m =>
      have hrest : l.length = m.length := Nat.succ.inj hlength
      obtain ⟨hc, hl⟩ := List.forall_mem_cons.1 hl
      obtain ⟨hd, hm⟩ := List.forall_mem_cons.1 hm
      have hlt := ofDigitChars_lt hl
      have hlt' := ofDigitChars_lt hm
      rw [ofDigitChars_cons, ofDigitChars_cons, ← hrest] at h
      rw [← hrest] at hlt'
      -- the first digit is the quotient and the rest is the remainder
      have hpos : 0 < 10 ^ l.length := Nat.pow_pos (by decide)
      have hfirst : c.toNat - 48 = d.toNat - 48 := by
        have := congrArg (· / 10 ^ l.length) h
        simpa only [Nat.mul_add_div hpos, Nat.div_eq_of_lt hlt, Nat.div_eq_of_lt hlt',
          Nat.add_zero] using this
      have hvalues : Nat.ofDigitChars 10 l 0 = Nat.ofDigitChars 10 m 0 := by
        rw [hfirst] at h
        exact Nat.add_left_cancel h
      have hchar : c = d := by
        have hbounds := digit_bounds hc
        have hbounds' := digit_bounds hd
        exact Char.toNat_inj.1 (by omega)
      rw [hchar, ih hrest hl hm hvalues]

/-- Digits are written as they were read. -/
theorem fixed_ofDigitChars {l : List Char} (hne : l ≠ []) (hl : ∀ c ∈ l, c.isDigit = true) :
    fixed l.length (Nat.ofDigitChars 10 l 0) = l := by
  have hlength := length_fixed (List.length_pos_iff.2 hne) (ofDigitChars_lt hl)
  exact ofDigitChars_inj hlength isDigit_of_mem_fixed hl (ofDigitChars_fixed _ _)

end Decimal
