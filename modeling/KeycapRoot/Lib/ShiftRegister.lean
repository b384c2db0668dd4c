import Mathlib.Logic.Function.Iterate
import Mathlib.Tactic.Common

/-!
# Feedback shift registers

A register of `w` bits takes its input one bit at a time: the bit is added to the lowest bit of the
register, the register moves down one place, and if the bit that leaves it is set, then `taps` is
added. Shifting is linear, and it loses nothing where the highest tap is set (`shift_injective`).
So inputs of one length that differ, but within no more than `w` consecutive bits, leave the
register in different states (`feed_ne_of_differ`).
-/

namespace ShiftRegister

variable {w : Nat} (taps : BitVec w)

/-- The register moves down one place. -/
def shift (s : BitVec w) : BitVec w := if s.getLsbD 0 then (s >>> 1) ^^^ taps else s >>> 1

/-- The bit as the lowest bit of the register. -/
def lowest (w : Nat) (b : Bool) : BitVec w := BitVec.setWidth w (BitVec.ofBool b)

/-- The register after the bits. -/
def feed (s : BitVec w) (bits : List Bool) : BitVec w :=
  bits.foldl (fun s b => shift taps (s ^^^ lowest w b)) s

/-- The bits, the first of them lowest. -/
def ofBits (w : Nat) (bits : List Bool) : BitVec w :=
  BitVec.setWidth w (BitVec.ofBoolListLE bits)

theorem feed_cons (s : BitVec w) (b : Bool) (bits : List Bool) :
    feed taps s (b :: bits) = feed taps (shift taps (s ^^^ lowest w b)) bits := rfl

theorem feed_append (s : BitVec w) (bits more : List Bool) :
    feed taps s (bits ++ more) = feed taps (feed taps s bits) more := List.foldl_append

/-! ## Shifts -/

theorem getLsbD_shift (s : BitVec w) (i : Nat) :
    (shift taps s).getLsbD i = ((s >>> 1).getLsbD i ^^ (s.getLsbD 0 && taps.getLsbD i)) := by
  rw [shift]
  cases hs : s.getLsbD 0 <;> simp

theorem shift_xor (s t : BitVec w) : shift taps (s ^^^ t) = shift taps s ^^^ shift taps t := by
  apply BitVec.eq_of_getLsbD_eq
  intro i _
  simp only [BitVec.getLsbD_xor, getLsbD_shift, BitVec.getLsbD_ushiftRight]
  cases s.getLsbD 0 <;> cases t.getLsbD 0 <;> cases taps.getLsbD i <;>
    cases s.getLsbD (1 + i) <;> cases t.getLsbD (1 + i) <;> rfl

variable {taps}

/-- The highest bit of a shifted register tells which bit has left it. -/
theorem getLsbD_last_shift (htaps : taps.getLsbD (w - 1) = true) (s : BitVec w) :
    (shift taps s).getLsbD (w - 1) = s.getLsbD 0 := by
  have hout : s.getLsbD (1 + (w - 1)) = false := BitVec.getLsbD_of_ge s _ (by omega)
  rw [getLsbD_shift, BitVec.getLsbD_ushiftRight, hout, htaps, Bool.and_true, Bool.false_xor]

theorem shift_injective (htaps : taps.getLsbD (w - 1) = true) :
    Function.Injective (shift taps) := by
  intro s t h
  have hlow : s.getLsbD 0 = t.getLsbD 0 := by
    rw [← getLsbD_last_shift htaps, h, getLsbD_last_shift htaps]
  apply BitVec.eq_of_getLsbD_eq
  intro i hi
  cases i with
  | zero => exact hlow
  | succ i =>
    have hbit := congrArg (fun x : BitVec w => x.getLsbD i) h
    simp only [getLsbD_shift, hlow, BitVec.getLsbD_ushiftRight] at hbit
    rw [Nat.add_comm 1 i] at hbit
    exact Bool.xor_left_inj.1 hbit

/-! ## Inputs that fit the register -/

theorem getLsbD_ofBits (bits : List Bool) (i : Nat) :
    (ofBits w bits).getLsbD i = (decide (i < w) && bits[i]?.getD false) := by
  simp [ofBits]

theorem ofBits_nil : ofBits w [] = 0#w := by
  apply BitVec.eq_of_getLsbD_eq
  intro i _
  simp [getLsbD_ofBits]

/-- As long as the bits fit, all but the first of them only move down. -/
theorem shift_ofBits_cons (b : Bool) {bits : List Bool} (hfit : bits.length < w) :
    shift taps (ofBits w (b :: bits)) = shift taps (lowest w b) ^^^ ofBits w bits := by
  apply BitVec.eq_of_getLsbD_eq
  intro i hi
  have hlow : (ofBits w (b :: bits)).getLsbD 0 = b := by
    rw [getLsbD_ofBits, decide_eq_true (Nat.zero_lt_of_lt hfit)]
    rfl
  have hlow' : (lowest w b).getLsbD 0 = b := by simp [lowest, Nat.zero_lt_of_lt hfit]
  have hhigh : (lowest w b).getLsbD (1 + i) = false := by
    rw [lowest, BitVec.getLsbD_setWidth, BitVec.getLsbD_of_ge _ _ (by omega), Bool.and_false]
  have hup : (ofBits w (b :: bits)).getLsbD (1 + i) = (ofBits w bits).getLsbD i := by
    rw [getLsbD_ofBits, getLsbD_ofBits, Nat.add_comm, List.getElem?_cons_succ]
    by_cases hlast : i + 1 < w
    · rw [decide_eq_true hlast, decide_eq_true hi]
    · rw [List.getElem?_eq_none (by omega), Option.getD_none, Bool.and_false, Bool.and_false]
  rw [BitVec.getLsbD_xor, getLsbD_shift, getLsbD_shift, BitVec.getLsbD_ushiftRight,
    BitVec.getLsbD_ushiftRight, hlow, hlow', hhigh, hup, Bool.false_xor, Bool.xor_comm]

/-- Bits that fit may as well be added all at once. -/
theorem feed_eq {bits : List Bool} (hfit : bits.length ≤ w) (s : BitVec w) :
    feed taps s bits = (shift taps)^[bits.length] (s ^^^ ofBits w bits) := by
  induction bits generalizing s with
  | nil => rw [ofBits_nil, BitVec.xor_zero]; rfl
  | cons b bits ih =>
    have hrest : bits.length < w := hfit
    have hstep : shift taps (s ^^^ lowest w b) ^^^ ofBits w bits =
        shift taps (s ^^^ ofBits w (b :: bits)) := by
      rw [shift_xor, shift_xor, shift_ofBits_cons b hrest, BitVec.xor_assoc]
    rw [feed_cons, ih (Nat.le_of_lt hrest), hstep, List.length_cons,
      Function.iterate_succ_apply]

theorem ofBits_injective {bits bits' : List Bool} (hlen : bits.length = bits'.length)
    (hfit : bits.length ≤ w) (h : ofBits w bits = ofBits w bits') : bits = bits' := by
  apply List.ext_getElem hlen
  intro i hi hi'
  have hbit := congrArg (fun x : BitVec w => x.getLsbD i) h
  have hin : i < w := by omega
  simpa only [getLsbD_ofBits, decide_eq_true hin, Bool.true_and, List.getElem?_eq_getElem hi,
    List.getElem?_eq_getElem hi', Option.getD_some] using hbit

/-! ## Bursts -/

/-- Two lists of one length that differ, but within no more than `n` consecutive elements. -/
inductive Differ {α : Type*} (n : Nat) : List α → List α → Prop
  | within (before : List α) {mid mid' : List α} (after : List α) (hlen : mid.length = mid'.length)
      (hfit : mid.length ≤ n) (hne : mid ≠ mid') :
      Differ n (before ++ mid ++ after) (before ++ mid' ++ after)

theorem Differ.length_eq {α : Type*} {n : Nat} {l l' : List α} (h : Differ n l l') :
    l.length = l'.length := by
  obtain ⟨before, after, hlen, -, -⟩ := h
  simp [hlen]

/-- The same input keeps different states apart. -/
theorem feed_injective (htaps : taps.getLsbD (w - 1) = true) (bits : List Bool) :
    Function.Injective fun s => feed taps s bits := by
  induction bits with
  | nil => exact fun _ _ h => h
  | cons b bits ih =>
    intro s t h
    exact (BitVec.xor_left_inj _).1 (shift_injective htaps (ih h))

/-- **Bursts.** Inputs that differ within as many consecutive bits as the register has leave it in
different states. -/
theorem feed_ne_of_differ (htaps : taps.getLsbD (w - 1) = true) {bits bits' : List Bool}
    (h : Differ w bits bits') (s : BitVec w) : feed taps s bits ≠ feed taps s bits' := by
  obtain @⟨before, mid, mid', after, hlen, hfit, hne⟩ := h
  intro heq
  rw [feed_append, feed_append, feed_append, feed_append] at heq
  have hmid := feed_injective htaps after heq
  have hfit' : mid'.length ≤ w := hlen ▸ hfit
  rw [feed_eq hfit (feed taps s before), feed_eq hfit' (feed taps s before), ← hlen] at hmid
  have hbits := (BitVec.xor_right_inj _).1 ((shift_injective htaps).iterate _ hmid)
  exact hne (ofBits_injective hlen hfit hbits)

end ShiftRegister
