import KeycapRoot.Network.RegisteredMessage

/-!
# Bounded reads

Six reads of a `memory_stream` share the check `has_remaining`, which looks only whether anything
is unread. `Bounded` is what such a check is for: a read that needs more bytes than are unread
throws and changes nothing, and every other one depends on the unread bytes alone. The reads are
bounded exactly when nothing is unread or as much as they need (`bounded_reads_iff`); in between
they run across the end, and the array read stops half way.
-/

namespace KeycapRoot.Network

open LittleEndian LittleEndian.Scalar

namespace MemoryStream

/-- The read position is inside the buffer, and the buffer is no longer than a vector can be. -/
structure InRange (s : MemoryStream) : Prop where
  inside : s.Inside
  fits : s.buffer.length ≤ RegisteredMessage.maxSize

/-- A read that needs `need` bytes throws exactly if fewer are unread, and changes nothing then.
Otherwise streams with the same unread bytes give the same result, whatever is in front of these
bytes and behind the buffer, and the position moves over unread bytes only. -/
structure Bounded {β : Type} (read : Beyond → MemoryStream → Outcome MemoryStream β) (need : Nat)
    (s : MemoryStream) : Prop where
  throws : ∀ beyond,
    (∃ what t, read beyond s = .error (.exception what) t) ↔ s.unread.length < need
  unchanged : ∀ beyond what t, read beyond s = .error (.exception what) t → t = s
  returns : need ≤ s.unread.length → ∃ v n, n ≤ s.unread.length ∧
    ∀ beyond (s' : MemoryStream), s'.InRange → s'.unread = s.unread →
      read beyond s' = .ok v (s'.skip n)

/-- Nothing is unread, or as much as is needed. -/
def AllOrNone (s : MemoryStream) (need : Nat) : Prop :=
  s.unread = [] ∨ need ≤ s.unread.length

instance (s : MemoryStream) (need : Nat) : Decidable (s.AllOrNone need) :=
  inferInstanceAs (Decidable (_ ∨ _))

section Bounded

variable {β : Type} {read : Beyond → MemoryStream → Outcome MemoryStream β} {need : Nat}
  {s : MemoryStream}

theorem Bounded.of_enough {v : β} {n : Nat} (hs : s.InRange) (hneed : need ≤ s.unread.length)
    (hn : n ≤ s.unread.length)
    (hread : ∀ beyond (s' : MemoryStream), s'.InRange → s'.unread = s.unread →
      read beyond s' = .ok v (s'.skip n)) :
    Bounded read need s where
  throws := by
    intro beyond
    constructor
    · rintro ⟨what, t, hthrow⟩
      rw [hread beyond s hs rfl] at hthrow
      cases hthrow
    · intro hlt
      omega
  unchanged := by
    intro beyond what t hthrow
    rw [hread beyond s hs rfl] at hthrow
    cases hthrow
  returns := fun _ => ⟨v, n, hn, hread⟩

theorem Bounded.of_empty (what : String) (hs : s.unread = []) (hneed : 0 < need)
    (hread : ∀ beyond, read beyond s = .error (.exception what) s) : Bounded read need s where
  throws := by
    intro beyond
    rw [hs]
    exact ⟨fun _ => hneed, fun _ => ⟨what, s, hread beyond⟩⟩
  unchanged := by
    intro beyond what' t hthrow
    rw [hread] at hthrow
    cases hthrow
    rfl
  returns := by
    intro hle
    rw [hs] at hle
    exact absurd hneed (Nat.not_lt.2 hle)

/-- A read that does not throw on a stream with unread bytes, unless it moves the position first,
cannot be bounded when it needs more. -/
theorem Bounded.allOrNone (h : Bounded read need s)
    (hread : ∀ beyond what, s.unread ≠ [] → read beyond s ≠ .error (.exception what) s) :
    s.AllOrNone need := by
  by_contra hnot
  rw [AllOrNone, not_or, Nat.not_le] at hnot
  obtain ⟨what, t, hthrow⟩ := (h.throws fun _ => none).2 hnot.2
  have hsame := h.unchanged _ what t hthrow
  rw [hsame] at hthrow
  exact hread _ what hnot.1 hthrow

end Bounded

/-! ## The check -/

section Check

variable {s : MemoryStream}

theorem hasRemaining_of_unread (h : s.unread ≠ []) (n : Nat) : s.hasRemaining n = true :=
  hasRemaining_of_le (List.length_pos_iff.2 h) (Nat.le_refl _) n

theorem hasRemaining_of_empty (h : s.unread = []) (n : Nat) : s.hasRemaining n = false := by
  have hle : s.buffer.length ≤ s.readPosition := List.drop_eq_nil_iff.1 h
  exact decide_eq_false (Nat.not_lt.2 hle)

variable (beyond : Beyond) {α : Type} [Scalar α]

theorem get_ne_exception (h : s.unread ≠ []) (what : String) (t : MemoryStream) :
    s.get beyond α ≠ .error (.exception what) t := by
  rw [get, if_pos (hasRemaining_of_unread h _)]
  intro hthrow
  split at hthrow <;> cases hthrow

theorem getString_ne_exception {n : Nat} (h : s.unread ≠ []) (what : String) (t : MemoryStream) :
    s.getString beyond n ≠ .error (.exception what) t := by
  rw [getString, if_pos (hasRemaining_of_unread h _)]
  intro hthrow
  split at hthrow
  · cases hthrow
  · split at hthrow <;> cases hthrow

theorem writeTo_ne_exception {n : Nat} (h : s.unread ≠ []) (what : String) (t : MemoryStream) :
    s.writeTo beyond (some n) ≠ .error (.exception what) t := by
  rw [writeTo, if_pos (hasRemaining_of_unread h _)]
  intro hthrow
  split at hthrow <;> cases hthrow

theorem subscript_ne_exception {index : Nat} (h : s.unread ≠ []) (what : String) (t : MemoryStream) :
    s.subscript beyond index ≠ .error (.exception what) t := by
  rw [subscript, if_pos (hasRemaining_of_unread h _)]
  intro hthrow
  split at hthrow <;> cases hthrow

/-- `peek` is `const`: the stream it leaves is the stream it was called on. -/
def peekOutcome (α : Type) [Scalar α] (position : Nat) (beyond : Beyond) (s : MemoryStream) :
    Outcome MemoryStream α :=
  match s.peek beyond α position with
  | .ok v => .ok v s
  | .error e => .error e s

theorem peekOutcome_ne_exception {position : Nat} (h : s.unread ≠ []) (what : String)
    (t : MemoryStream) : peekOutcome α position beyond s ≠ .error (.exception what) t := by
  rw [peekOutcome, peek, if_pos (hasRemaining_of_unread h _)]
  intro hthrow
  cases hload : s.load beyond (position + s.readPosition) (Scalar.size α) with
  | none =>
    rw [hload] at hthrow
    cases hthrow
  | some bytes =>
    rw [hload] at hthrow
    cases hthrow

theorem get_empty (h : s.unread = []) :
    s.get beyond α = .error (.exception "Attempted to read past buffer end!") s := by
  rw [get, hasRemaining_of_empty h]
  rfl

theorem writeTo_empty (h : s.unread = []) (n : Nat) :
    s.writeTo beyond (some n) = .error (.exception "Attempted to read past buffer end!") s := by
  rw [writeTo, hasRemaining_of_empty h]
  rfl

theorem readPosition_of_get {v : α} {t : MemoryStream} (h : s.get beyond α = .ok v t) :
    t.readPosition = s.readPosition + Scalar.size α := by
  rw [RegisteredMessage.get_ok_state beyond h, skip]

theorem get_error_state {e : Fault} {t : MemoryStream} (h : s.get beyond α = .error e t) :
    t = s := by
  rw [get] at h
  split at h
  · split at h
    · cases h
    · cases h
      rfl
  · cases h
    rfl

/-- The elements are read one after the other, and the position stays where the last one ends. -/
theorem readPosition_le_of_getArray {n : Nat} {e : Fault} {t : MemoryStream}
    (h : getArray beyond α n s = .error e t) : s.readPosition ≤ t.readPosition := by
  induction n generalizing s with
  | zero => cases h
  | succ n ih =>
    rw [getArray, Outcome.andThen_eq_error] at h
    rcases h with hfirst | ⟨v, s', hfirst, hrest⟩
    · have hsame := get_error_state beyond hfirst
      exact Nat.le_of_eq (congrArg readPosition hsame.symm)
    · have hmoved := readPosition_of_get beyond hfirst
      rcases Outcome.andThen_eq_error.1 hrest with hrest | ⟨vs, s'', -, hend⟩
      · have hle := ih hrest
        omega
      · cases hend

/-- An array read that throws although bytes are unread has read some of them. -/
theorem getArray_ne_exception {n : Nat} (h : s.unread ≠ []) (what : String) :
    getArray beyond α n s ≠ .error (.exception what) s := by
  intro hthrow
  cases n with
  | zero => cases hthrow
  | succ n =>
    have hpos : 0 < Scalar.size α := size_pos
    rw [getArray, Outcome.andThen_eq_error] at hthrow
    rcases hthrow with hfirst | ⟨v, s', hfirst, hrest⟩
    · exact get_ne_exception beyond h what s hfirst
    · have hmoved := readPosition_of_get beyond hfirst
      rcases Outcome.andThen_eq_error.1 hrest with hrest | ⟨vs, s'', -, hend⟩
      · have hle := readPosition_le_of_getArray beyond hrest
        omega
      · cases hend

end Check

/-! ## The reads -/

section Reads

variable {s : MemoryStream} {α : Type} [Scalar α]

theorem bounded_get (hs : s.InRange) (h : s.AllOrNone (Scalar.size α)) :
    Bounded (fun beyond s => s.get beyond α) (Scalar.size α) s := by
  rcases h with hempty | hle
  · exact Bounded.of_empty _ hempty size_pos fun beyond => get_empty beyond hempty
  · apply Bounded.of_enough hs hle hle (v := (Scalar.ofBytes (s.unread.take (Scalar.size α)) : α))
    intro beyond s' hs' hsame
    rw [get_eq beyond (by rwa [hsame]), hsame]

theorem bounded_getArray (hs : s.InRange) {n : Nat} (h : s.AllOrNone (n * Scalar.size α)) :
    Bounded (fun beyond s => getArray beyond α n s) (n * Scalar.size α) s := by
  have henough : n * Scalar.size α ≤ s.unread.length →
      Bounded (fun beyond s => getArray beyond α n s) (n * Scalar.size α) s := by
    intro hle
    apply Bounded.of_enough hs hle hle (v := valuesOf α n s.unread)
    intro beyond s' hs' hsame
    rw [getArray_eq beyond (by rwa [hsame]), hsame]
  rcases h with hempty | hle
  · cases n with
    | zero => exact henough (by omega)
    | succ n =>
      have hpos : 0 < (n + 1) * Scalar.size α := Nat.mul_pos (Nat.succ_pos n) size_pos
      apply Bounded.of_empty "Attempted to read past buffer end!" hempty hpos
      intro beyond
      rw [getArray, get_empty beyond hempty, Outcome.andThen_error]
  · exact henough hle

theorem bounded_getString (hs : s.InRange) {n : Nat} (h : s.AllOrNone n) :
    Bounded (fun beyond s => s.getString beyond n) n s := by
  by_cases hle : n ≤ s.unread.length
  · apply Bounded.of_enough hs hle hle (v := s.unread.take n)
    intro beyond s' hs' hsame
    rw [getString_eq beyond (by rwa [hsame]), hsame]
  · have hempty : s.unread = [] := h.resolve_right hle
    have hpos : 0 < n := by omega
    apply Bounded.of_empty "Attempted to read past buffer end!" hempty hpos
    intro beyond
    rw [getString, if_neg (Nat.ne_of_gt hpos), hasRemaining_of_empty hempty]
    rfl

theorem bounded_peek (hs : s.InRange) {position : Nat}
    (h : s.AllOrNone (position + Scalar.size α)) :
    Bounded (peekOutcome α position) (position + Scalar.size α) s := by
  have hpos : 0 < Scalar.size α := size_pos
  rcases h with hempty | hle
  · apply Bounded.of_empty "Attempted to read past buffer end!" hempty (by omega)
    intro beyond
    rw [peekOutcome, peek, hasRemaining_of_empty hempty]
    rfl
  · apply Bounded.of_enough hs hle (Nat.zero_le _)
      (v := (Scalar.ofBytes ((s.unread.drop position).take (Scalar.size α)) : α))
    intro beyond s' hs' hsame
    rw [peekOutcome, peek_eq beyond (by rwa [hsame]), hsame, skip_zero]

theorem bounded_writeTo (hs : s.InRange) {n : Nat} (h : s.AllOrNone n)
    (hzero : n = 0 → s.unread ≠ []) : Bounded (fun beyond s => s.writeTo beyond (some n)) n s := by
  rcases h with hempty | hle
  · have hpos : 0 < n := Nat.pos_of_ne_zero fun hn => hzero hn hempty
    exact Bounded.of_empty _ hempty hpos fun beyond => writeTo_empty beyond hempty n
  · apply Bounded.of_enough hs hle hle (v := s.unread.take n)
    intro beyond s' hs' hsame
    rcases Nat.eq_zero_or_pos n with rfl | hpos
    · simp [writeTo, load, hasRemaining_of_unread (s := s') (by rw [hsame]; exact hzero rfl)]
    · rw [writeTo_some_eq beyond hpos (by rwa [hsame]), hsame]

/-- The sum of index and read position wraps around only for an index that is not in the buffer. -/
theorem bounded_subscript (hs : s.InRange) {index : Nat} (h : s.AllOrNone (index + 1)) :
    Bounded (fun beyond s => s.subscript beyond index) (index + 1) s := by
  rcases h with hempty | hle
  · apply Bounded.of_empty "Tried to override past the stream's end!" hempty (Nat.succ_pos _)
    intro beyond
    rw [subscript, hasRemaining_of_empty hempty]
    rfl
  · apply Bounded.of_enough hs hle (Nat.zero_le _) (v := s.unread[index])
    intro beyond s' hs' hsame
    have hlen : index + 1 ≤ s'.buffer.length - s'.readPosition := by
      rw [← List.length_drop]
      change index + 1 ≤ s'.unread.length
      rwa [hsame]
    have hfits := hs'.fits
    rw [RegisteredMessage.maxSize] at hfits
    have hwrap : (index + s'.readPosition) % 2 ^ 64 = index + s'.readPosition :=
      Nat.mod_eq_of_lt (by omega)
    have hbyte : s'.buffer[index + s'.readPosition]? = some s.unread[index] := by
      rw [← List.getElem?_eq_getElem, ← hsame, unread, List.getElem?_drop, Nat.add_comm]
    have hunread : s'.unread ≠ [] := by
      rw [hsame]
      exact List.ne_nil_of_length_pos (by omega)
    rw [subscript, if_pos (hasRemaining_of_unread hunread _), hwrap, byteAt, hbyte, skip_zero]

/-- **Bounded reads.** Each of the six reads is bounded exactly if nothing is unread or as much as
it needs; writing nothing from a stream with nothing unread is the one case beside. -/
theorem bounded_reads_iff (α : Type) [Scalar α] (hs : s.InRange) :
    (Bounded (fun beyond s => s.get beyond α) (Scalar.size α) s ↔ s.AllOrNone (Scalar.size α)) ∧
    (∀ n, Bounded (fun beyond s => getArray beyond α n s) (n * Scalar.size α) s ↔
      s.AllOrNone (n * Scalar.size α)) ∧
    (∀ n, Bounded (fun beyond s => s.getString beyond n) n s ↔ s.AllOrNone n) ∧
    (∀ position, Bounded (peekOutcome α position) (position + Scalar.size α) s ↔
      s.AllOrNone (position + Scalar.size α)) ∧
    (∀ n, Bounded (fun beyond s => s.writeTo beyond (some n)) n s ↔
      s.AllOrNone n ∧ (n = 0 → s.unread ≠ [])) ∧
    (∀ index, Bounded (fun beyond s => s.subscript beyond index) (index + 1) s ↔
      s.AllOrNone (index + 1)) := by
  refine ⟨⟨?_, bounded_get hs⟩, fun n => ⟨?_, bounded_getArray hs⟩,
    fun n => ⟨?_, bounded_getString hs⟩, fun position => ⟨?_, bounded_peek hs⟩,
    fun n => ⟨?_, fun h => bounded_writeTo hs h.1 h.2⟩, fun index => ⟨?_, bounded_subscript hs⟩⟩
  · intro h
    apply h.allOrNone
    intro beyond what hunread
    exact get_ne_exception beyond hunread what s
  · intro h
    apply h.allOrNone
    intro beyond what hunread
    exact getArray_ne_exception beyond hunread what
  · intro h
    apply h.allOrNone
    intro beyond what hunread
    exact getString_ne_exception beyond hunread what s
  · intro h
    apply h.allOrNone
    intro beyond what hunread
    exact peekOutcome_ne_exception beyond hunread what s
  · intro h
    refine ⟨h.allOrNone ?_, ?_⟩
    · intro beyond what hunread
      exact writeTo_ne_exception beyond hunread what s
    · rintro rfl hempty
      -- nothing is unread and nothing is needed, and still it throws
      have hthrow := writeTo_empty (fun _ => none) hempty 0
      exact Nat.not_lt_zero _ ((h.throws _).1 ⟨_, _, hthrow⟩)
  · intro h
    apply h.allOrNone
    intro beyond what hunread
    exact subscript_ne_exception beyond hunread what s

theorem bounded_reads_iff_sample :
    let s : MemoryStream := { readPosition := 1, buffer := [9, 1, 2, 3, 4] }
    s.InRange ∧ Bounded (fun beyond s => s.get beyond UInt32) 4 s ∧
      ¬ Bounded (fun beyond s => s.get beyond UInt64) 8 s := by
  have hs : InRange { readPosition := 1, buffer := [9, 1, 2, 3, 4] } := ⟨by decide, by decide⟩
  refine ⟨hs, (bounded_reads_iff UInt32 hs).1.2 (Or.inr (by decide)), ?_⟩
  intro h
  exact absurd ((bounded_reads_iff UInt64 hs).1.1 h) (by decide)

/-- Two unread bytes: a read of four does not throw. What it finds is up to the memory behind the
buffer, and the read position ends up behind the end. An array of four single bytes throws, but
only after the two bytes have been read. -/
theorem short_read_not_bounded :
    let s : MemoryStream := .ofBytes [1, 2]
    s.InRange ∧ s.unread.length < Scalar.size UInt32 ∧
      s.get (fun _ => none) UInt32 = .error .undefined s ∧
      s.get (fun _ => some 0) UInt32 = .ok 0x0201 { readPosition := 4, buffer := [1, 2] } ∧
      getArray (fun _ => none) UInt8 4 s = .error (.exception "Attempted to read past buffer end!")
        { readPosition := 2, buffer := [1, 2] } ∧
      ¬ Bounded (fun beyond s => s.get beyond UInt32) (Scalar.size UInt32) s := by
  refine ⟨⟨by decide, by decide⟩, by decide, by decide, by decide, by decide, ?_⟩
  intro h
  obtain ⟨what, t, hthrow⟩ := (h.throws fun _ => none).2 (by decide)
  cases hthrow

end Reads

end MemoryStream

end KeycapRoot.Network
