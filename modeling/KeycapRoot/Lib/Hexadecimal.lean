import Mathlib.Algebra.Group.Nat.Defs
import Mathlib.Data.List.Basic
import Mathlib.Tactic.Common

/-!
# Hexadecimal digits

`fixed upper width n` is a number in hexadecimal digits with zeros in front, and `value` reads
digits of either case back. A byte at width 2 has exactly two digits, so digits written two by two
can be read in pairs (`bytes_flatMap_fixed`).
-/

namespace Hexadecimal

/-- The sixteen digits. -/
def alphabet (upper : Bool) : List Char :=
  ['0', '1', '2', '3', '4', '5', '6', '7', '8', '9'] ++
    if upper then ['A', 'B', 'C', 'D', 'E', 'F'] else ['a', 'b', 'c', 'd', 'e', 'f']

/-- The hexadecimal digits of `n`. -/
def digits (upper : Bool) (n : Nat) : List Char :=
  (Nat.toDigits 16 n).map fun c => if upper then c.toUpper else c

/-- The hexadecimal digits of `n`, with zeros in front up to `width`. -/
def fixed (upper : Bool) (width n : Nat) : List Char := List.leftpad width '0' (digits upper n)

def digitValue (c : Char) : Option Nat :=
  if 48 ≤ c.toNat ∧ c.toNat ≤ 57 then some (c.toNat - 48)
  else if 65 ≤ c.toNat ∧ c.toNat ≤ 70 then some (c.toNat - 55)
  else if 97 ≤ c.toNat ∧ c.toNat ≤ 102 then some (c.toNat - 87)
  else none

/-- The number that digits are. -/
def value (l : List Char) : Option Nat :=
  l.foldlM (fun n c => (digitValue c).map fun d => 16 * n + d) 0

/-- The bytes that digits are, two for each of them. -/
def bytes : List Char → Option (List UInt8)
  | [] => some []
  | [_] => none
  | a :: b :: rest => do
    let n ← value [a, b]
    let bs ← bytes rest
    return UInt8.ofNat n :: bs

/-! ## Digits -/

theorem digits_of_lt (upper : Bool) {n : Nat} (h : n < 16) :
    digits upper n = [if upper then n.digitChar.toUpper else n.digitChar] := by
  rw [digits, Nat.toDigits_of_lt_base h, List.map_singleton]

theorem digits_of_le (upper : Bool) {n : Nat} (h : 16 ≤ n) :
    digits upper n = digits upper (n / 16) ++ digits upper (n % 16) := by
  have hlt : n % 16 < 16 := Nat.mod_lt _ (by decide)
  rw [digits, Nat.toDigits_of_base_le (by decide) h, List.map_append, ← digits,
    ← Nat.toDigits_of_lt_base hlt, ← digits]

/-- A digit is in the alphabet and has its value. -/
theorem digit_spec (upper : Bool) {n : Nat} (h : n < 16) :
    (if upper then n.digitChar.toUpper else n.digitChar) ∈ alphabet upper ∧
      digitValue (if upper then n.digitChar.toUpper else n.digitChar) = some n := by
  revert n upper
  decide

theorem mem_alphabet_of_mem_digits {upper : Bool} {n : Nat} :
    ∀ c ∈ digits upper n, c ∈ alphabet upper := by
  induction n using Nat.strongRecOn with
  | _ n ih =>
    intro c hc
    by_cases h : n < 16
    · rw [digits_of_lt upper h, List.mem_singleton] at hc
      rw [hc]
      exact (digit_spec upper h).1
    · rw [digits_of_le upper (Nat.le_of_not_lt h), List.mem_append] at hc
      rcases hc with hfront | hlast
      · exact ih _ (by omega) c hfront
      · exact ih _ (by omega) c hlast

theorem value_append (l m : List Char) :
    value (l ++ m) =
      (value l).bind fun n => m.foldlM (fun n c => (digitValue c).map fun d => 16 * n + d) n := by
  rw [value, List.foldlM_append]
  rfl

theorem value_digits (upper : Bool) (n : Nat) : value (digits upper n) = some n := by
  induction n using Nat.strongRecOn with
  | _ n ih =>
    by_cases h : n < 16
    · rw [digits_of_lt upper h]
      simp [value, (digit_spec upper h).2]
    · have hlt : n % 16 < 16 := Nat.mod_lt _ (by decide)
      rw [digits_of_le upper (Nat.le_of_not_lt h), value_append, ih _ (by omega),
        digits_of_lt upper hlt]
      simp only [Option.bind_some, List.foldlM_cons, (digit_spec upper hlt).2, Option.map_some]
      exact congrArg some (Nat.div_add_mod n 16)

theorem value_zeros (k : Nat) : value (List.replicate k '0') = some 0 := by
  induction k with
  | zero => rfl
  | succ k ih =>
    rw [List.replicate_succ']
    rw [value_append, ih]
    rfl

/-! ## Digits at a fixed width -/

theorem mem_alphabet_of_mem_fixed {upper : Bool} {width n : Nat} :
    ∀ c ∈ fixed upper width n, c ∈ alphabet upper := by
  intro c hc
  rcases List.mem_append.1 hc with hzero | hdigit
  · rw [List.eq_of_mem_replicate hzero]
    cases upper <;> decide
  · exact mem_alphabet_of_mem_digits c hdigit

@[simp] theorem value_fixed (upper : Bool) (width n : Nat) :
    value (fixed upper width n) = some n := by
  rw [fixed, List.leftpad, value_append, value_zeros]
  exact value_digits upper n

theorem length_fixed_eq_iff (upper : Bool) {width : Nat} (hwidth : 0 < width) (n : Nat) :
    (fixed upper width n).length = width ↔ n < 16 ^ width := by
  rw [fixed, List.length_leftpad, digits, List.length_map,
    ← Nat.length_toDigits_le_iff (by decide) hwidth]
  omega

theorem le_length_fixed (upper : Bool) (width n : Nat) : width ≤ (fixed upper width n).length := by
  rw [fixed, List.length_leftpad]
  exact Nat.le_max_left _ _

theorem bytes_fixed_append (upper : Bool) (b : UInt8) (rest : List Char) :
    bytes (fixed upper 2 b.toNat ++ rest) = (bytes rest).map (b :: ·) := by
  have hlength := (length_fixed_eq_iff upper (by decide : 0 < 2) b.toNat).2 b.toNat_lt
  have hvalue := value_fixed upper 2 b.toNat
  obtain ⟨high, low, hpair⟩ := List.length_eq_two.1 hlength
  rw [hpair] at hvalue ⊢
  rw [List.cons_append, List.singleton_append, bytes, hvalue]
  simp only [bind, Option.bind_some, UInt8.ofNat_toNat]
  cases bytes rest <;> rfl

/-- Bytes that are written at width 2 are read back. -/
theorem bytes_flatMap_fixed (upper : Bool) (bs : List UInt8) :
    bytes (bs.flatMap fun b => fixed upper 2 b.toNat) = some bs := by
  induction bs with
  | nil => rfl
  | cons b bs ih => rw [List.flatMap_cons, bytes_fixed_append, ih, Option.map_some]

end Hexadecimal
