import KeycapRoot.Network.BoundedReads

/-!
# Positions in `size_t`

`advance` takes a signed amount and `override` any position, and both compute in `size_t`. A
negative amount is a huge one there, so every step back ends at the start (`advance_of_neg`), and
a position close to the top wraps around the bounds check (`overrides_iff`). A step forward is
exact, but nothing holds it back at the end of the buffer.
-/

namespace KeycapRoot.Network.MemoryStream

open LittleEndian LittleEndian.Scalar

variable {s : MemoryStream}

/-! ## Steps -/

theorem InRange.lt (hs : s.InRange) : s.readPosition < 2 ^ 63 := by
  have hle := hs.inside.le
  have hfits := hs.fits
  rw [RegisteredMessage.maxSize] at hfits
  omega

theorem lt_zero_iff {amount : Int32} : amount < 0 ↔ amount.toInt < 0 := by
  rw [Int32.lt_iff_toInt_lt, Int32.toInt_zero]

theorem zero_lt_iff {amount : Int32} : 0 < amount ↔ 0 < amount.toInt := by
  rw [Int32.lt_iff_toInt_lt, Int32.toInt_zero]

@[simp] theorem buffer_advance (s : MemoryStream) (amount : Int32) :
    (s.advance amount).buffer = s.buffer := by
  rw [advance]
  split <;> rfl

theorem toSize_of_nonneg {amount : Int32} (h : 0 ≤ amount.toInt) :
    (toSize amount : Int) = amount.toInt := by
  have hlt := amount.toInt_lt
  rw [toSize, Int.toNat_of_nonneg (Int.emod_nonneg _ (by decide)), Int.emod_eq_of_lt h (by omega)]

/-- A negative `int` is a number at the top of `size_t`. -/
theorem toSize_of_neg {amount : Int32} (h : amount.toInt < 0) : 2 ^ 63 ≤ toSize amount := by
  have hle := amount.le_toInt
  rw [toSize]
  omega

theorem advance_of_nonneg (hs : s.InRange) {amount : Int32} (h : 0 ≤ amount.toInt) :
    ((s.advance amount).readPosition : Int) = s.readPosition + amount.toInt := by
  have hlt := hs.lt
  have hamount := amount.toInt_lt
  have hsize := toSize_of_nonneg h
  rw [advance, if_neg fun hneg => absurd (lt_zero_iff.1 hneg.1) (Int.not_lt.2 h)]
  change (((s.readPosition + toSize amount) % 2 ^ 64 : Nat) : Int) = _
  omega

/-- However small the step back, it ends at the start. -/
theorem advance_of_neg (hs : s.InRange) {amount : Int32} (h : amount.toInt < 0) :
    (s.advance amount).readPosition = 0 := by
  have hlt := hs.lt
  have hsize := toSize_of_neg h
  rw [advance, if_pos ⟨lt_zero_iff.2 h, by omega⟩]

/-- A step of the read position that stops at either end of the buffer. -/
structure StepsWithin (s : MemoryStream) (amount : Int32) : Prop where
  buffer : (s.advance amount).buffer = s.buffer
  back : amount < 0 →
    ((s.advance amount).readPosition : Int) = max 0 ((s.readPosition : Int) + amount.toInt)
  forward : 0 < amount → ((s.advance amount).readPosition : Int) =
    min (s.buffer.length : Int) ((s.readPosition : Int) + amount.toInt)

/-- A step stays inside the buffer exactly if a step back goes to the start at least and a step
forward does not pass the end. -/
theorem stepsWithin_iff (hs : s.InRange) (amount : Int32) :
    s.StepsWithin amount ↔ (amount < 0 → s.readPosition + amount.toInt ≤ 0) ∧
      (0 < amount → s.readPosition + amount.toInt ≤ s.buffer.length) := by
  constructor
  · intro h
    refine ⟨?_, ?_⟩
    · intro hneg
      have hback := h.back hneg
      rw [advance_of_neg hs (lt_zero_iff.1 hneg)] at hback
      omega
    · intro hpos
      have hforward := h.forward hpos
      rw [advance_of_nonneg hs (Int.le_of_lt (zero_lt_iff.1 hpos))] at hforward
      omega
  · rintro ⟨hback, hforward⟩
    refine ⟨buffer_advance s amount, ?_, ?_⟩
    · intro hneg
      have hstart := hback hneg
      rw [advance_of_neg hs (lt_zero_iff.1 hneg)]
      omega
    · intro hpos
      have hend := hforward hpos
      rw [advance_of_nonneg hs (Int.le_of_lt (zero_lt_iff.1 hpos))]
      omega

theorem toInt_neg_of_nonneg {a : Int32} (h : 0 ≤ a.toInt) : (-a).toInt = -a.toInt := by
  have hlt := a.toInt_lt
  rw [Int32.toInt_neg, Int.bmod_eq_of_le (by omega) (by omega)]

/-- **Steps.** A step forward is exact, also past the end of the buffer, and a step back that does
not end behind the start ends at the start. From the start, a step and the step back cancel. -/
theorem advance_spec (hs : s.InRange) :
    (∀ amount, (s.advance amount).buffer = s.buffer) ∧
    (∀ amount : Int32, 0 < amount →
      ((s.advance amount).readPosition : Int) = s.readPosition + amount.toInt) ∧
    (∀ amount : Int32, amount < 0 → s.readPosition + amount.toInt ≤ 0 →
      ((s.advance amount).readPosition : Int) = max 0 ((s.readPosition : Int) + amount.toInt)) ∧
    s.advance 0 = s ∧
    (∀ a : Int32, 0 ≤ a → a.toInt ≤ s.unread.length → s.readPosition = 0 →
      (s.advance a).advance (-a) = s) := by
  have hzero : s.advance 0 = s := by
    have hpos : ((s.advance 0).readPosition : Int) = s.readPosition + (0 : Int32).toInt :=
      advance_of_nonneg hs (by decide)
    have hsame : (s.advance 0).readPosition = s.readPosition := by
      rw [Int32.toInt_zero] at hpos
      omega
    exact congrArg₂ MemoryStream.mk hsame (buffer_advance s 0)
  refine ⟨buffer_advance s, ?_, ?_, hzero, ?_⟩
  · intro amount hpos
    exact advance_of_nonneg hs (Int.le_of_lt (zero_lt_iff.1 hpos))
  · intro amount hneg hstart
    rw [advance_of_neg hs (lt_zero_iff.1 hneg)]
    omega
  · intro a ha hunread hstart
    have hnonneg : 0 ≤ a.toInt := by
      rwa [Int32.le_iff_toInt_le, Int32.toInt_zero] at ha
    rcases Int.lt_or_eq_of_le hnonneg with hpos | heq
    · -- the stream in between is in range, and the step back ends at the start
      have hmoved := advance_of_nonneg hs hnonneg
      have hlen : s.unread.length = s.buffer.length := by
        rw [unread, hstart, List.drop_zero]
      have hin : (s.advance a).InRange := by
        refine ⟨?_, ?_⟩
        · rw [Inside, buffer_advance]
          omega
        · rw [buffer_advance]
          exact hs.fits
      have hneg : (-a).toInt < 0 := by
        rw [toInt_neg_of_nonneg hnonneg]
        omega
      have hback := advance_of_neg hin hneg
      exact congrArg₂ MemoryStream.mk (hback.trans hstart.symm)
        ((buffer_advance _ _).trans (buffer_advance s a))
    · have hnone : a = 0 := Int32.toInt_inj.1 (by rw [Int32.toInt_zero, heq])
      rw [hnone, hzero]
      exact hzero

theorem advance_spec_sample :
    let s : MemoryStream := .ofBytes [1, 2, 3]
    s.InRange ∧ (s.advance 2).advance (-2) = s := by
  have hs : (ofBytes [1, 2, 3]).InRange := ⟨by decide, by decide⟩
  exact ⟨hs, (advance_spec hs).2.2.2.2 2 (by decide) (by decide) rfl⟩

/-- From position 4 a step back by one ends at 0, a step forward by five ends behind the six bytes,
and a step and the step back do not cancel. -/
theorem step_not_within :
    let s : MemoryStream := { readPosition := 4, buffer := [1, 2, 3, 4, 5, 6] }
    s.InRange ∧ (s.advance (-1)).readPosition = 0 ∧ ¬ s.StepsWithin (-1) ∧
      (s.advance 5).readPosition = 9 ∧ ¬ s.StepsWithin 5 ∧
      ((s.advance 1).advance (-1)).readPosition = 0 := by
  refine ⟨⟨by decide, by decide⟩, by decide, ?_, by decide, ?_, by decide⟩
  · intro h
    exact absurd (h.back (by decide)) (by decide)
  · intro h
    exact absurd (h.forward (by decide)) (by decide)

/-! ## Overriding -/

variable {α : Type} [Scalar α]

/-- Overriding throws and changes nothing if the value does not fit behind the position. Otherwise
the value is read back from there, and all else is as it was. -/
structure Overrides (s : MemoryStream) (value : α) (position : UInt64) : Prop where
  outside : s.buffer.length < position.toNat + Scalar.size α →
    ∃ what, s.override value position = .error (.exception what) s
  within : position.toNat + Scalar.size α ≤ s.buffer.length →
    ∃ t, s.override value position = .ok () t ∧ t.readPosition = s.readPosition ∧
      t.buffer.length = s.buffer.length ∧
      (∀ beyond, t.load beyond position.toNat (Scalar.size α) = some (toBytes value)) ∧
      (∀ beyond, s.readPosition ≤ position.toNat →
        t.peek beyond α (position.toNat - s.readPosition) = .ok value) ∧
      ∀ i, i < position.toNat ∨ position.toNat + Scalar.size α ≤ i → t.buffer[i]? = s.buffer[i]?

theorem override_within (hfits : s.buffer.length ≤ RegisteredMessage.maxSize) (value : α)
    {position : UInt64} (h : position.toNat + Scalar.size α ≤ s.buffer.length) :
    ∃ t, s.store position.toNat (toBytes value) = some t ∧ s.override value position = .ok () t := by
  rw [RegisteredMessage.maxSize] at hfits
  have hnowrap : (position.toNat + Scalar.size α) % 2 ^ 64 = position.toNat + Scalar.size α :=
    Nat.mod_eq_of_lt (by omega)
  have hbytes : position.toNat + (toBytes value).length ≤ s.buffer.length := by
    rwa [length_toBytes]
  have hstore := store_eq_some hbytes
  refine ⟨_, hstore, ?_⟩
  rw [override, hnowrap, if_neg (Nat.not_lt.2 h), hstore]

theorem peek_store {t : MemoryStream} {value : α} {position : Nat}
    (h : s.store position (toBytes value) = some t) (hsame : t.readPosition = s.readPosition)
    (hle : position + Scalar.size α ≤ t.buffer.length) (beyond : Beyond)
    (hpos : s.readPosition ≤ position) :
    t.peek beyond α (position - s.readPosition) = .ok value := by
  have hsize : 0 < Scalar.size α := size_pos
  have hmore : t.readPosition < t.buffer.length := by omega
  have hindex : position - s.readPosition + t.readPosition = position := by omega
  have hload := load_store beyond h
  rw [length_toBytes] at hload
  rw [peek, if_pos (show t.hasRemaining _ = true from decide_eq_true hmore), hindex, hload]
  exact congrArg Except.ok (ofBytes_toBytes value)

/-- **Overriding** does what it should exactly if the sum of position and width fits in `size_t`, or
is too large for the buffer after it has wrapped around as well. -/
theorem overrides_iff (hfits : s.buffer.length ≤ RegisteredMessage.maxSize)
    (hwidth : Scalar.size α = 1 ∨ Scalar.size α = 2 ∨ Scalar.size α = 4 ∨ Scalar.size α = 8)
    (value : α) (position : UInt64) :
    s.Overrides value position ↔ position.toNat + Scalar.size α < 2 ^ 64 ∨
      s.buffer.length < position.toNat + Scalar.size α - 2 ^ 64 := by
  have hposition := position.toNat_lt
  have hmax : s.buffer.length < 2 ^ 63 := by
    rw [RegisteredMessage.maxSize] at hfits
    omega
  constructor
  · intro h
    by_contra hnot
    obtain ⟨what, hthrow⟩ := h.outside (by omega)
    -- the wrapped sum passes the check, and the store is behind the buffer
    have hcheck : ¬ s.buffer.length < (position.toNat + Scalar.size α) % 2 ^ 64 := by omega
    have hstore : s.store position.toNat (toBytes value) = none :=
      if_neg (by rw [length_toBytes]; omega)
    rw [override, if_neg hcheck, hstore] at hthrow
    cases hthrow
  · intro h
    refine ⟨?_, ?_⟩
    · intro houtside
      have hcheck : s.buffer.length < (position.toNat + Scalar.size α) % 2 ^ 64 := by omega
      exact ⟨_, if_pos hcheck⟩
    · intro hwithin
      obtain ⟨t, hstore, hok⟩ := override_within hfits value hwithin
      have hlen := length_store hstore
      have hsame : t.readPosition = s.readPosition := by
        rw [store_eq_some (by rwa [length_toBytes])] at hstore
        cases hstore
        rfl
      refine ⟨t, hok, hsame, hlen, ?_, ?_, ?_⟩
      · intro beyond
        have hload := load_store beyond hstore
        rwa [length_toBytes] at hload
      · exact peek_store hstore hsame (by rwa [hlen])
      · intro i hi
        exact store_frame hstore (by rwa [length_toBytes])

theorem overrides_iff_sample :
    (ofBytes [1, 2, 3]).Overrides (0xBEEF : UInt16) 1 ∧
      ¬ (ofBytes [1, 2, 3]).Overrides (7 : UInt8) 0xFFFFFFFFFFFFFFFF := by
  refine ⟨(overrides_iff (by decide) (by decide) _ _).2 (by decide), ?_⟩
  intro h
  exact absurd ((overrides_iff (by decide) (by decide) _ _).1 h) (by decide)

/-- The last position of `size_t` and a byte: the sum is zero, and the byte goes in front of the
buffer. -/
theorem override_wraps_around :
    (ofBytes [1, 2, 3]).override (7 : UInt8) 0xFFFFFFFFFFFFFFFF =
        .error .undefined (ofBytes [1, 2, 3]) ∧
      ¬ (ofBytes [1, 2, 3]).Overrides (7 : UInt8) 0xFFFFFFFFFFFFFFFF := by
  refine ⟨by decide, ?_⟩
  intro h
  obtain ⟨what, hthrow⟩ := h.outside (by decide)
  cases hthrow

end KeycapRoot.Network.MemoryStream
