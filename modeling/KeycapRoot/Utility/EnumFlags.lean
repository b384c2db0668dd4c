import KeycapRoot.Lib.Runs
import KeycapRoot.Utility.Enum
import Mathlib.Data.Set.Basic

/-!
# Flags

A class that `keycap_enum_flags` declares holds the bits of an enumeration over an integer type of
any width. Setting, clearing and toggling convert the value to `int32_t` first, so what is in bit 31
takes the place of all bits above it. On types of no more than 32 bits that changes nothing, and the
class computes with sets of flags (`flags_are_sets`). On wider ones it does so exactly in the runs
in which the higher bits are as bit 31 is: those that a flag to be set or cleared does not name, and
all of them where a flag is toggled (`flags_track_iff`).
-/

namespace KeycapRoot.Utility.Enum

/-- The conversion of a value of one integer type to another one of `n` bits. -/
def IntegerType.convert (u : IntegerType) (n : Nat) (v : BitVec u.width) : BitVec n :=
  if u.signed then v.signExtend n else v.setWidth n

/-- The width of an `int32_t` combined with an enumerator: the smaller operand is promoted. -/
def IntegerType.common (u : IntegerType) : Nat := max 32 u.width

namespace Flags

variable {u : IntegerType}

/-- `static_cast<int32_t>(value_)` as an operand. -/
def operand (value : BitVec u.width) : BitVec u.common := (u.convert 32 value).signExtend u.common

/-- `set_flag(which)`. -/
def setFlag (value which : BitVec u.width) : BitVec u.width :=
  (operand value ||| u.convert u.common which).setWidth u.width

/-- `set_all_flags()`. -/
def setAllFlags (u : IntegerType) : BitVec u.width := BitVec.ofInt u.width (-1)

/-- `clear_flag(which)`. -/
def clearFlag (value which : BitVec u.width) : BitVec u.width :=
  (operand value &&& ~~~ u.convert u.common which).setWidth u.width

/-- `clear_all_flags()`. -/
def clearAllFlags (u : IntegerType) : BitVec u.width := 0#u.width

/-- `toggle_flag(which)`. -/
def toggleFlag (value which : BitVec u.width) : BitVec u.width :=
  (operand value ^^^ u.convert u.common which).setWidth u.width

/-- `test_flag(which)`. -/
def testFlag (value which : BitVec u.width) : Bool :=
  (operand value &&& u.convert u.common which).setWidth u.width == which

/-! ## Bits -/

/-- The flags that are set. -/
def bits (value : BitVec u.width) : Set Nat := {i | value.getLsbD i = true}

theorem mem_bits {value : BitVec u.width} {i : Nat} : i ∈ bits value ↔ value.getLsbD i = true :=
  Iff.rfl

theorem lt_of_mem_bits {value : BitVec u.width} {i : Nat} (h : i ∈ bits value) : i < u.width := by
  by_contra hge
  rw [mem_bits, BitVec.getLsbD_of_ge value i (Nat.le_of_not_lt hge)] at h
  cases h

theorem getLsbD_convert {n i : Nat} (value : BitVec u.width) (hn : i < n) (hi : i < u.width) :
    (u.convert n value).getLsbD i = value.getLsbD i := by
  rw [IntegerType.convert]
  split
  · rw [BitVec.getLsbD_signExtend, if_pos hi, decide_eq_true hn, Bool.true_and]
  · rw [BitVec.getLsbD_setWidth, decide_eq_true hn, Bool.true_and]

/-- The operand has the lower bits of the value, and bit 31 in place of the others. -/
theorem getLsbD_operand {i : Nat} (value : BitVec u.width) (hi : i < u.width) :
    (operand value).getLsbD i = value.getLsbD (if i < 32 then i else 31) := by
  have hcommon : i < u.common := Nat.lt_of_lt_of_le hi (Nat.le_max_right 32 u.width)
  rw [operand, BitVec.getLsbD_signExtend, decide_eq_true hcommon, Bool.true_and]
  by_cases hlow : i < 32
  · rw [if_pos hlow, if_pos hlow, getLsbD_convert value hlow hi]
  · rw [if_neg hlow, if_neg hlow, BitVec.msb_eq_getLsbD_last,
      getLsbD_convert value (by decide) (by omega)]

theorem getLsbD_which {i : Nat} (which : BitVec u.width) (hi : i < u.width) :
    (u.convert u.common which).getLsbD i = which.getLsbD i :=
  getLsbD_convert which (Nat.lt_of_lt_of_le hi (Nat.le_max_right 32 u.width)) hi

section Results

variable {i : Nat} (value which : BitVec u.width)

theorem getLsbD_setFlag (hi : i < u.width) :
    (setFlag value which).getLsbD i =
      (value.getLsbD (if i < 32 then i else 31) || which.getLsbD i) := by
  rw [setFlag, BitVec.getLsbD_setWidth, decide_eq_true hi, Bool.true_and, BitVec.getLsbD_or,
    getLsbD_operand value hi, getLsbD_which which hi]

theorem getLsbD_clearFlag (hi : i < u.width) :
    (clearFlag value which).getLsbD i =
      (value.getLsbD (if i < 32 then i else 31) && !which.getLsbD i) := by
  have hcommon : i < u.common := Nat.lt_of_lt_of_le hi (Nat.le_max_right 32 u.width)
  rw [clearFlag, BitVec.getLsbD_setWidth, decide_eq_true hi, Bool.true_and, BitVec.getLsbD_and,
    BitVec.getLsbD_not, decide_eq_true hcommon, Bool.true_and, getLsbD_operand value hi,
    getLsbD_which which hi]

theorem getLsbD_toggleFlag (hi : i < u.width) :
    (toggleFlag value which).getLsbD i =
      (value.getLsbD (if i < 32 then i else 31) ^^ which.getLsbD i) := by
  rw [toggleFlag, BitVec.getLsbD_setWidth, decide_eq_true hi, Bool.true_and, BitVec.getLsbD_xor,
    getLsbD_operand value hi, getLsbD_which which hi]

/-- A flag is found when each of its bits is set; a bit above 31 is looked for in bit 31. -/
theorem testFlag_iff :
    testFlag value which = true ↔
      ∀ i, i ∈ bits which → (if i < 32 then i else 31) ∈ bits value := by
  have hbit : ∀ i, i < u.width →
      (((operand value &&& u.convert u.common which).setWidth u.width).getLsbD i =
        which.getLsbD i ↔ (which.getLsbD i = true →
          value.getLsbD (if i < 32 then i else 31) = true)) := by
    intro i hi
    rw [BitVec.getLsbD_setWidth, decide_eq_true hi, Bool.true_and, BitVec.getLsbD_and,
      getLsbD_operand value hi, getLsbD_which which hi]
    cases which.getLsbD i <;> simp
  rw [testFlag, beq_iff_eq]
  constructor
  · intro h i hmem
    exact (hbit i (lt_of_mem_bits hmem)).1 (congrArg (fun v => v.getLsbD i) h) hmem
  · intro h
    apply BitVec.eq_of_getLsbD_eq
    intro i hi
    exact (hbit i hi).2 (h i)

end Results

/-! ## Sets of flags -/

/-- The calls that change a value. -/
inductive Call (u : IntegerType)
  | set (value : BitVec u.width)
  | setFlag (which : BitVec u.width)
  | setAllFlags
  | clearFlag (which : BitVec u.width)
  | clearAllFlags
  | toggleFlag (which : BitVec u.width)

/-- What a call does to the value. -/
def Call.apply (value : BitVec u.width) : Call u → BitVec u.width
  | .set value => value
  | .setFlag which => Flags.setFlag value which
  | .setAllFlags => Flags.setAllFlags u
  | .clearFlag which => Flags.clearFlag value which
  | .clearAllFlags => Flags.clearAllFlags u
  | .toggleFlag which => Flags.toggleFlag value which

/-- What it is meant to do to the set of flags. -/
def Call.spec (flags : Set Nat) : Call u → Set Nat
  | .set value => bits value
  | .setFlag which => flags ∪ bits which
  | .setAllFlags => {i | i < u.width}
  | .clearFlag which => flags \ bits which
  | .clearAllFlags => ∅
  | .toggleFlag which => (flags \ bits which) ∪ (bits which \ flags)

/-- The bits above 31 that the call depends on are as bit 31 is: those that are not named, or all of
them where those that are named are toggled. -/
def Call.Keeps (value : BitVec u.width) : Call u → Prop
  | .setFlag which | .clearFlag which =>
    ∀ i, 32 ≤ i → i < u.width → i ∉ bits which → (i ∈ bits value ↔ 31 ∈ bits value)
  | .toggleFlag _ => ∀ i, 32 ≤ i → i < u.width → (i ∈ bits value ↔ 31 ∈ bits value)
  | _ => True

/-- To compare sets of flags it is enough to look at the bits of the type. -/
theorem bits_eq_iff {value : BitVec u.width} {flags : Set Nat}
    (hflags : ∀ i ∈ flags, i < u.width) :
    bits value = flags ↔ ∀ i, i < u.width → (i ∈ bits value ↔ i ∈ flags) := by
  constructor
  · rintro rfl i -
    exact Iff.rfl
  · intro h
    ext i
    by_cases hi : i < u.width
    · exact h i hi
    · exact ⟨fun hmem => absurd (lt_of_mem_bits hmem) hi, fun hmem => absurd (hflags i hmem) hi⟩

theorem bits_setAllFlags (u : IntegerType) : bits (setAllFlags u) = {i | i < u.width} := by
  ext i
  rw [mem_bits, setAllFlags, BitVec.ofInt_neg, BitVec.ofInt_ofNat, BitVec.neg_one_eq_allOnes,
    BitVec.getLsbD_allOnes, decide_eq_true_eq]
  rfl

theorem bits_clearAllFlags (u : IntegerType) : bits (clearAllFlags u) = ∅ := by
  ext i
  rw [mem_bits, clearAllFlags, BitVec.getLsbD_zero]
  simp

/-- The specification names only bits of the type. -/
theorem Call.lt_of_mem_spec (value : BitVec u.width) (call : Call u) :
    ∀ i ∈ call.spec (bits value), i < u.width := by
  intro i hmem
  cases call with
  | set value' => exact lt_of_mem_bits hmem
  | setFlag which => exact hmem.elim lt_of_mem_bits lt_of_mem_bits
  | setAllFlags => exact hmem
  | clearFlag which => exact lt_of_mem_bits hmem.1
  | clearAllFlags => exact absurd hmem (Set.notMem_empty i)
  | toggleFlag which => exact hmem.elim (fun h => lt_of_mem_bits h.1) (fun h => lt_of_mem_bits h.1)

theorem bits_setFlag_iff (value which : BitVec u.width) :
    bits (setFlag value which) = bits value ∪ bits which ↔ Call.Keeps value (.setFlag which) := by
  refine (bits_eq_iff (Call.lt_of_mem_spec value (.setFlag which))).trans ?_
  simp only [Call.spec, Call.Keeps, mem_bits, Set.mem_union]
  constructor
  · intro h i hhigh hi hother
    have hi' := h i hi
    rw [getLsbD_setFlag _ _ hi, if_neg (Nat.not_lt.2 hhigh), Bool.eq_false_iff.2 hother] at hi'
    simpa using hi'.symm
  · intro h i hi
    rw [getLsbD_setFlag _ _ hi, Bool.or_eq_true]
    by_cases hlow : i < 32
    · rw [if_pos hlow]
    · rw [if_neg hlow]
      by_cases hnamed : which.getLsbD i = true
      · simp [hnamed]
      · rw [h i (Nat.le_of_not_lt hlow) hi hnamed]

theorem bits_clearFlag_iff (value which : BitVec u.width) :
    bits (clearFlag value which) = bits value \ bits which ↔
      Call.Keeps value (.clearFlag which) := by
  refine (bits_eq_iff (Call.lt_of_mem_spec value (.clearFlag which))).trans ?_
  simp only [Call.spec, Call.Keeps, mem_bits, Set.mem_sdiff]
  constructor
  · intro h i hhigh hi hother
    have hi' := h i hi
    rw [getLsbD_clearFlag _ _ hi, if_neg (Nat.not_lt.2 hhigh), Bool.eq_false_iff.2 hother] at hi'
    simpa using hi'.symm
  · intro h i hi
    rw [getLsbD_clearFlag _ _ hi, Bool.and_eq_true, Bool.not_eq_true', Bool.eq_false_iff, Ne]
    by_cases hlow : i < 32
    · rw [if_pos hlow]
    · rw [if_neg hlow]
      by_cases hnamed : which.getLsbD i = true
      · simp [hnamed]
      · rw [h i (Nat.le_of_not_lt hlow) hi hnamed]

theorem bits_toggleFlag_iff (value which : BitVec u.width) :
    bits (toggleFlag value which) = (bits value \ bits which) ∪ (bits which \ bits value) ↔
      Call.Keeps value (.toggleFlag which) := by
  refine (bits_eq_iff (Call.lt_of_mem_spec value (.toggleFlag which))).trans ?_
  simp only [Call.spec, Call.Keeps, mem_bits, Set.mem_union, Set.mem_sdiff]
  constructor
  · intro h i hhigh hi
    have hi' := h i hi
    rw [getLsbD_toggleFlag _ _ hi, if_neg (Nat.not_lt.2 hhigh)] at hi'
    cases hv : value.getLsbD i <;> cases hw : which.getLsbD i <;>
      cases hs : value.getLsbD 31 <;> simp [hv, hw, hs] at hi' ⊢
  · intro h i hi
    rw [getLsbD_toggleFlag _ _ hi]
    by_cases hlow : i < 32
    · rw [if_pos hlow]
      cases value.getLsbD i <;> cases which.getLsbD i <;> simp
    · rw [if_neg hlow, h i (Nat.le_of_not_lt hlow) hi]
      cases value.getLsbD 31 <;> cases which.getLsbD i <;> simp

/-- **One call** does what it is meant to do exactly if the higher bits are as it needs them. -/
theorem Call.bits_apply_iff (value : BitVec u.width) (call : Call u) :
    bits (call.apply value) = call.spec (bits value) ↔ call.Keeps value := by
  cases call with
  | set value' => simp [Call.apply, Call.spec, Call.Keeps]
  | setFlag which => exact bits_setFlag_iff value which
  | setAllFlags => simp [Call.apply, Call.spec, Call.Keeps, bits_setAllFlags]
  | clearFlag which => exact bits_clearFlag_iff value which
  | clearAllFlags => simp [Call.apply, Call.spec, Call.Keeps, bits_clearAllFlags]
  | toggleFlag which => exact bits_toggleFlag_iff value which

/-! ## Runs -/

/-- A value, and the set of flags that it is meant to hold. -/
structure Tracked (u : IntegerType) where
  value : BitVec u.width
  flags : Set Nat

def Tracked.start (value : BitVec u.width) : Tracked u := ⟨value, bits value⟩

def Tracked.step (s : Tracked u) (call : Call u) : Option (Tracked u) :=
  some ⟨call.apply s.value, call.spec s.flags⟩

/-- **Runs of calls.** On a type of any width, the value holds the flags that it is meant to hold in
every state of a run if and only if, at each `set_flag` and `clear_flag` of the run, the bits above
31 that it does not name are as bit 31 is, and at each `toggle_flag` all bits above 31 are. -/
theorem flags_track_iff (value : BitVec u.width) {calls : List (Call u)} {t : Tracked u}
    (hrun : Runs.run Tracked.step (.start value) calls = some t) :
    (∀ before s, before <+: calls → Runs.run Tracked.step (.start value) before = some s →
        bits s.value = s.flags) ↔
      Runs.Along Tracked.step (fun s call => call.Keeps s.value) (.start value) calls := by
  refine Runs.always_iff_along (fun _ h => h) ?_ ?_ rfl hrun
  · intro s call s' h hkeeps hstep
    cases hstep
    rw [← h]
    exact (call.bits_apply_iff s.value).2 hkeeps
  · intro s call s' h hbreaks hstep heq
    cases hstep
    rw [← h] at heq
    exact hbreaks ((call.bits_apply_iff s.value).1 heq)

/-- Over `int`, the red flag is set and the first flag is toggled. -/
theorem flags_track_iff_sample :
    let u : IntegerType := { signed := true, width := 32 }
    ∃ t, Runs.run (Tracked.step (u := u)) (.start 2#32) [.setFlag 1#32, .toggleFlag 2#32] =
        some t ∧ bits t.value = t.flags := by
  intro u
  have hrun : Runs.run (Tracked.step (u := u)) (.start 2#32) [.setFlag 1#32, .toggleFlag 2#32] =
      some _ := rfl
  refine ⟨_, hrun, (flags_track_iff (u := u) 2#32 hrun).2 ?_ _ _ List.prefix_rfl hrun⟩
  refine ⟨?_, fun s' hs' => ⟨?_, fun _ _ => trivial⟩⟩
  · intro i hhigh hi
    exact absurd hi (Nat.not_lt.2 hhigh)
  · intro i hhigh hi
    exact absurd hi (Nat.not_lt.2 hhigh)

/-- **Sets of flags.** On a type of no more than 32 bits, any calls leave the flags that they are
meant to leave, and `test_flag` tells whether all bits of a flag are among them. -/
theorem flags_are_sets (hwidth : u.width ≤ 32) (value : BitVec u.width) (calls : List (Call u)) :
    let value' := calls.foldl Call.apply value
    let flags := calls.foldl Call.spec (bits value)
    bits value' = flags ∧ ∀ which, testFlag value' which = true ↔ bits which ⊆ flags := by
  have hkeeps : ∀ (value : BitVec u.width) (call : Call u), call.Keeps value := by
    intro value call
    cases call with
    | setFlag which | clearFlag which | toggleFlag which =>
      exact fun i hhigh hi => absurd (Nat.le_trans hwidth hhigh) (Nat.not_le.2 hi)
    | _ => exact trivial
  have hbits : bits (calls.foldl Call.apply value) = calls.foldl Call.spec (bits value) := by
    induction calls generalizing value with
    | nil => rfl
    | cons call calls ih =>
      rw [List.foldl_cons, List.foldl_cons, ih, (call.bits_apply_iff value).2 (hkeeps value call)]
  refine ⟨hbits, ?_⟩
  intro which
  rw [← hbits, testFlag_iff]
  have hlow : ∀ i ∈ bits which, (if i < 32 then i else 31) = i :=
    fun i hmem => if_pos (Nat.lt_of_lt_of_le (lt_of_mem_bits hmem) hwidth)
  exact ⟨fun h i hmem => hlow i hmem ▸ h i hmem, fun h i hmem => (hlow i hmem).symm ▸ h hmem⟩

/-- Over `uint8`. -/
theorem flags_are_sets_sample :
    let u : IntegerType := { signed := false, width := 8 }
    let calls : List (Call u) := [.setFlag 4#8, .clearFlag 1#8]
    ∀ which, testFlag (calls.foldl Call.apply 3#8) which = true ↔
      bits which ⊆ calls.foldl Call.spec (bits (u := u) 3#8) := by
  intro u calls
  exact (flags_are_sets (u := u) (by decide) 3#8 calls).2

-- over `int64`, setting another flag clears flag 40
example : setFlag (u := { signed := true, width := 64 }) 0x10000000000#64 1#64 = 1#64 := by decide

end Flags

end KeycapRoot.Utility.Enum
