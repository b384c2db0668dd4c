import Mathlib.Algebra.Group.Int.Defs
import KeycapRoot.Lib.LittleEndian
import KeycapRoot.Lib.Outcome

/-!
# The memory stream

`memory_stream` is a vector of bytes with a read position. The bounds check of every read,
`has_remaining`, ignores the number of bytes it is asked for, so a read can start inside the buffer
and end behind it. What such a read finds is not the program's to say: it is the parameter
`beyond`, which gives the bytes behind the last element or traps.

An operation that can throw gives an `Outcome`. The lemmas at the end of each section say what an
operation does when the read position is inside the buffer (`Inside`) and enough bytes are unread.
-/

namespace KeycapRoot.Network

open LittleEndian LittleEndian.Scalar

/-- The bytes behind the last element of a vector, by their distance from it; `none` traps. -/
abbrev Beyond := Nat → Option UInt8

structure MemoryStream where
  readPosition : Nat := 0
  buffer : List UInt8 := []
  deriving DecidableEq, Repr

namespace MemoryStream

/-! ## State -/

/-- The bytes that have not been read yet. -/
def unread (s : MemoryStream) : List UInt8 := s.buffer.drop s.readPosition

/-- The read position is at most the buffer's size. -/
def Inside (s : MemoryStream) : Prop := s.readPosition ≤ s.buffer.length

instance (s : MemoryStream) : Decidable s.Inside := inferInstanceAs (Decidable (_ ≤ _))

/-- A stream over the bytes of an iterable. -/
def ofBytes (bytes : List UInt8) : MemoryStream := { buffer := bytes }

@[simp] theorem unread_ofBytes (bytes : List UInt8) : (ofBytes bytes).unread = bytes := rfl

@[simp] theorem inside_ofBytes (bytes : List UInt8) : (ofBytes bytes).Inside := Nat.zero_le _

/-- `size()`, computed in `size_t`: it wraps around when the read position is behind the end. -/
def size (s : MemoryStream) : Nat :=
  if s.readPosition ≤ s.buffer.length then s.buffer.length - s.readPosition
  else 2 ^ 64 - (s.readPosition - s.buffer.length)

theorem Inside.le {s : MemoryStream} (h : s.Inside) : s.readPosition ≤ s.buffer.length := h

theorem Inside.size_eq {s : MemoryStream} (h : s.Inside) : s.size = s.unread.length := by
  rw [size, unread, if_pos h.le, List.length_drop]

/-- Only a stream whose read position is inside the buffer has unread bytes. -/
theorem inside_of_unread {s : MemoryStream} (h : s.unread ≠ []) : s.Inside := by
  have hpos := List.length_pos_iff.2 h
  rw [unread, List.length_drop] at hpos
  exact Nat.le_of_lt (Nat.lt_of_sub_pos hpos)

/-- `has_data_remaining()`. -/
def hasDataRemaining (s : MemoryStream) : Bool := s.size != 0

/-- `has_remaining(num_bytes)`; the argument is not looked at. -/
def hasRemaining (s : MemoryStream) (_numBytes : Nat) : Bool := s.readPosition < s.buffer.length

theorem hasRemaining_of_le {s : MemoryStream} {n : Nat} (hn : 0 < n)
    (h : n ≤ s.unread.length) (m : Nat) : s.hasRemaining m = true := by
  rw [unread, List.length_drop] at h
  exact decide_eq_true (by omega)

/-! ## Writing -/

section Put

variable {α : Type} [Scalar α]

/-- Everything that is put goes to the end of the buffer. -/
def append (s : MemoryStream) (bytes : List UInt8) : MemoryStream :=
  { s with buffer := s.buffer ++ bytes }

/-- `put(T const&)` for an integer. -/
def put (s : MemoryStream) (value : α) : MemoryStream := s.append (toBytes value)

/-- `put(std::vector<T> const&)`, element by element. -/
def putVector (s : MemoryStream) (vec : List α) : MemoryStream := vec.foldl put s

/-- `put(std::array<T, N>)`, all bytes of the array at once. -/
def putArray (s : MemoryStream) (value : List α) : MemoryStream := s.append (bytesOf value)

/-- `put(std::span<uint8_t>)`. -/
def putBytes (s : MemoryStream) (data : List UInt8) : MemoryStream := s.append data

/-- `put(std::span<T>)`. -/
def putSpan (s : MemoryStream) (data : List α) : MemoryStream := s.append (bytesOf data)

/-- `put(std::string const&)`. -/
def putString (s : MemoryStream) (string : List UInt8) : MemoryStream := s.append string

/-- `put(memory_stream const&)`: the whole buffer of the other stream, read or not. -/
def putStream (s : MemoryStream) (stream : MemoryStream) : MemoryStream := s.append stream.buffer

/-- The bytes at the index are replaced, if they are all in the buffer. -/
def store (s : MemoryStream) (i : Nat) (bytes : List UInt8) : Option MemoryStream :=
  if i + bytes.length ≤ s.buffer.length then
    some { s with buffer := s.buffer.take i ++ bytes ++ s.buffer.drop (i + bytes.length) }
  else none

/-- `override(value, position)`. The sum is computed in `size_t`, where it wraps around. -/
def override (s : MemoryStream) (value : α) (position : UInt64) : Outcome MemoryStream Unit :=
  if s.buffer.length < (position.toNat + Scalar.size α) % 2 ^ 64 then
    .error (.exception "Tried to override past the stream's end!") s
  else
    match s.store position.toNat (toBytes value) with
    | some t => .ok () t
    | none => .error .undefined s

@[simp] theorem buffer_append (s : MemoryStream) (bytes : List UInt8) :
    (s.append bytes).buffer = s.buffer ++ bytes := rfl

@[simp] theorem readPosition_append (s : MemoryStream) (bytes : List UInt8) :
    (s.append bytes).readPosition = s.readPosition := rfl

theorem Inside.append {s : MemoryStream} (h : s.Inside) (bytes : List UInt8) :
    (s.append bytes).Inside := by
  rw [Inside, readPosition_append, buffer_append, List.length_append]
  exact Nat.le_add_right_of_le h

theorem Inside.unread_append {s : MemoryStream} (h : s.Inside) (bytes : List UInt8) :
    (s.append bytes).unread = s.unread ++ bytes :=
  List.drop_append_of_le_length h

@[simp] theorem append_append (s : MemoryStream) (a b : List UInt8) :
    (s.append a).append b = s.append (a ++ b) := by
  simp only [append, List.append_assoc]

theorem append_nil (s : MemoryStream) : s.append [] = s := by
  simp only [append, List.append_nil]

/-- A vector is stored as an array of its elements. -/
theorem putVector_eq (s : MemoryStream) (vec : List α) :
    s.putVector vec = s.append (bytesOf vec) := by
  induction vec generalizing s with
  | nil => exact (append_nil s).symm
  | cons v vec ih => rw [putVector, List.foldl_cons, ← putVector, ih, put, append_append,
      bytesOf_cons]

end Put

/-! ## Reading -/

section Get

variable (beyond : Beyond) (α : Type) [Scalar α]

/-- The byte a read at index `i` of the buffer finds. -/
def byteAt (s : MemoryStream) (i : Nat) : Option UInt8 :=
  match s.buffer[i]? with
  | some b => some b
  | none => beyond (i - s.buffer.length)

/-- The `n` bytes from index `i` on. -/
def load (s : MemoryStream) (i : Nat) : Nat → Option (List UInt8)
  | 0 => some []
  | n + 1 => do
    let b ← s.byteAt beyond i
    let bs ← s.load (i + 1) n
    return b :: bs

/-- `get<T>()`. -/
def get (s : MemoryStream) : Outcome MemoryStream α :=
  if s.hasRemaining (Scalar.size α) then
    match s.load beyond s.readPosition (Scalar.size α) with
    | some bytes =>
      .ok (Scalar.ofBytes bytes) { s with readPosition := s.readPosition + Scalar.size α }
    | none => .error .undefined s
  else .error (.exception "Attempted to read past buffer end!") s

/-- `get<T, N>()`: one element after the other. -/
def getArray : Nat → MemoryStream → Outcome MemoryStream (List α)
  | 0, s => .ok [] s
  | n + 1, s =>
    (s.get beyond α).andThen fun element s =>
      (getArray n s).andThen fun rest s => .ok (element :: rest) s

/-- `get_string(size)`. -/
def getString (s : MemoryStream) (size : Nat) : Outcome MemoryStream (List UInt8) :=
  if size = 0 then .ok [] s
  else if s.hasRemaining size then
    match s.load beyond s.readPosition size with
    | some string => .ok string { s with readPosition := s.readPosition + size }
    | none => .error .undefined s
  else .error (.exception "Attempted to read past buffer end!") s

/-- The loop of `get_string()`. It reads one byte a round, so `fuel` bounds its rounds by the
number of unread bytes. -/
def getStringLoop : Nat → MemoryStream → Outcome MemoryStream (List UInt8)
  | 0, s => .ok [] s
  | fuel + 1, s =>
    if s.readPosition < s.buffer.length then
      (s.get beyond UInt8).andThen fun c s =>
        if c = 0 then .ok [] s
        else (getStringLoop fuel s).andThen fun str s => .ok (c :: str) s
    else .ok [] s

/-- `get_string()`: up to a zero byte, or to the end. -/
def getStringZero (s : MemoryStream) : Outcome MemoryStream (List UInt8) :=
  getStringLoop beyond s.unread.length s

/-- `get_remaining()`. A range that starts behind the end is no range. -/
def getRemaining (s : MemoryStream) : Outcome MemoryStream MemoryStream :=
  let s' := { s with readPosition := s.buffer.length }
  if s.readPosition ≤ s.buffer.length then .ok (ofBytes (s.buffer.drop s.readPosition)) s'
  else .error .undefined s'

/-- `peek<T>(where)`. -/
def peek (s : MemoryStream) (position : Nat) : Except Fault α :=
  if s.hasRemaining (Scalar.size α + position) then
    match s.load beyond (position + s.readPosition) (Scalar.size α) with
    | some bytes => .ok (Scalar.ofBytes bytes)
    | none => .error .undefined
  else .error (.exception "Attempted to read past buffer end!")

/-- `shrink()`: drops what has been read. -/
def shrink (s : MemoryStream) : Outcome MemoryStream Unit :=
  if s.readPosition = 0 then .ok () s
  else if s.readPosition ≤ s.buffer.length then
    .ok () { readPosition := 0, buffer := s.buffer.drop s.readPosition }
  else .error .undefined s

/-- An `int` that is converted to `size_t`. -/
def toSize (amount : Int32) : Nat := (amount.toInt % 2 ^ 64).toNat

/-- `advance(amount)`. The amount is compared and added as a `size_t`. -/
def advance (s : MemoryStream) (amount : Int32) : MemoryStream :=
  if amount < 0 ∧ s.readPosition < toSize amount then { s with readPosition := 0 }
  else { s with readPosition := (s.readPosition + toSize amount) % 2 ^ 64 }

/-- `clear()`. -/
def clear (_s : MemoryStream) : MemoryStream := {}

/-- `to_vector()`. -/
def toVector (s : MemoryStream) : Outcome MemoryStream (List UInt8) :=
  let s' := { s with readPosition := s.buffer.length }
  if s.readPosition ≤ s.buffer.length then
    .ok (s.buffer.drop (s.buffer.length - (s.buffer.length - s.readPosition))) s'
  else .error .undefined s'

/-- `to_span()` of a stream whose read position is inside the buffer. -/
def toSpan (s : MemoryStream) : List UInt8 := s.buffer.drop s.readPosition

/-- `write_to(destination, num_bytes)`; the result is what is written to the destination. -/
def writeTo (s : MemoryStream) (numBytes : Option Nat) : Outcome MemoryStream (List UInt8) :=
  match numBytes with
  | some n =>
    if s.hasRemaining n then
      match s.load beyond s.readPosition n with
      | some bytes => .ok bytes { s with readPosition := s.readPosition + n }
      | none => .error .undefined s
    else .error (.exception "Attempted to read past buffer end!") s
  | none =>
    if s.readPosition ≤ s.buffer.length then
      .ok (s.buffer.drop s.readPosition) { s with readPosition := s.buffer.length }
    else .error .undefined s

/-- `operator[](index)`, with the byte that the reference leads to. -/
def subscript (s : MemoryStream) (index : Nat) : Outcome MemoryStream UInt8 :=
  if s.hasRemaining index then
    match s.byteAt beyond ((index + s.readPosition) % 2 ^ 64) with
    | some b => .ok b s
    | none => .error .undefined s
  else .error (.exception "Tried to override past the stream's end!") s

end Get

/-! ## Reads inside the buffer -/

section Spec

variable (beyond : Beyond) {α : Type} [Scalar α] {s : MemoryStream}

/-- The stream after `n` more bytes have been read. -/
def skip (s : MemoryStream) (n : Nat) : MemoryStream :=
  { s with readPosition := s.readPosition + n }

/-- The stream after everything has been read. -/
def exhaust (s : MemoryStream) : MemoryStream := { s with readPosition := s.buffer.length }

@[simp] theorem skip_zero (s : MemoryStream) : s.skip 0 = s := rfl

@[simp] theorem skip_skip (s : MemoryStream) (m n : Nat) :
    (s.skip m).skip n = s.skip (m + n) := by
  simp only [skip, Nat.add_assoc]

@[simp] theorem unread_skip (s : MemoryStream) (n : Nat) :
    (s.skip n).unread = s.unread.drop n := by
  simp only [unread, skip, List.drop_drop]

@[simp] theorem unread_exhaust (s : MemoryStream) : s.exhaust.unread = [] := List.drop_length

@[simp] theorem inside_exhaust (s : MemoryStream) : s.exhaust.Inside := Nat.le_refl _

theorem Inside.skip (h : s.Inside) {n : Nat} (hn : n ≤ s.unread.length) : (s.skip n).Inside := by
  rw [unread, List.length_drop] at hn
  simp only [Inside, MemoryStream.skip] at h ⊢
  omega

theorem byteAt_of_lt {i : Nat} (h : i < s.buffer.length) :
    s.byteAt beyond i = some s.buffer[i] := by
  rw [byteAt, List.getElem?_eq_getElem h]

theorem load_of_le : ∀ {n i : Nat}, i + n ≤ s.buffer.length →
    s.load beyond i n = some ((s.buffer.drop i).take n)
  | 0, _, _ => by rw [load, List.take_zero]
  | n + 1, i, h => by
    have hi : i < s.buffer.length := by omega
    rw [load, byteAt_of_lt beyond hi, load_of_le (by omega), List.drop_eq_getElem_cons hi]
    rfl

/-- A read across the end traps if the memory behind it does. -/
theorem load_trap : ∀ {n i : Nat}, i ≤ s.buffer.length → s.buffer.length < i + n →
    s.load (fun _ => none) i n = none
  | 0, _, hi, h => absurd h (by omega)
  | n + 1, i, hi, h => by
    rcases Nat.lt_or_eq_of_le hi with hlt | heq
    · rw [load, byteAt_of_lt _ hlt, load_trap hlt (by omega)]
      rfl
    · rw [load, byteAt, List.getElem?_eq_none (by omega)]
      rfl

/-- What a read finds begins with the bytes that are in the buffer. -/
theorem prefix_of_load {n i : Nat} {bytes : List UInt8} (h : s.load beyond i n = some bytes) :
    bytes.length = n ∧ (s.buffer.drop i).take n <+: bytes := by
  induction n generalizing i bytes with
  | zero =>
    cases h
    exact ⟨rfl, by simp⟩
  | succ n ih =>
    rw [load] at h
    obtain ⟨b, hb, h⟩ := Option.bind_eq_some_iff.1 h
    obtain ⟨bs, hbs, h⟩ := Option.bind_eq_some_iff.1 h
    cases h
    obtain ⟨hlen, hprefix⟩ := ih hbs
    refine ⟨by rw [List.length_cons, hlen], ?_⟩
    rcases Nat.lt_or_ge i s.buffer.length with hi | hi
    · rw [byteAt_of_lt beyond hi] at hb
      cases hb
      rw [List.drop_eq_getElem_cons hi, List.take_succ_cons]
      exact List.cons_prefix_cons.2 ⟨rfl, hprefix⟩
    · rw [List.drop_eq_nil_of_le hi, List.take_nil]
      exact List.nil_prefix

/-- Over memory that is zero, a read across the end finds zeros there. -/
theorem load_zeros {n i : Nat} (h : s.buffer.length ≤ i + n) :
    s.load (fun _ => some 0) i n =
      some (s.buffer.drop i ++ List.replicate (n - (s.buffer.drop i).length) 0) := by
  induction n generalizing i with
  | zero =>
    rw [List.drop_eq_nil_of_le (by omega)]
    rfl
  | succ n ih =>
    rw [load, ih (by omega)]
    rcases Nat.lt_or_ge i s.buffer.length with hi | hi
    · rw [byteAt_of_lt _ hi, List.drop_eq_getElem_cons hi, List.length_cons, Nat.add_sub_add_right]
      rfl
    · rw [byteAt, List.getElem?_eq_none hi, List.drop_eq_nil_of_le hi,
        List.drop_eq_nil_of_le (Nat.le_succ_of_le hi)]
      rfl

/-- Inside the buffer a read finds the next unread bytes. -/
theorem load_unread {i n : Nat} (h : i + n ≤ s.unread.length) (hn : 0 < n) :
    s.load beyond (i + s.readPosition) n = some ((s.unread.drop i).take n) := by
  rw [unread, List.length_drop] at h
  rw [load_of_le beyond (by omega), unread, List.drop_drop, Nat.add_comm]

theorem get_eq (h : Scalar.size α ≤ s.unread.length) :
    s.get beyond α =
      .ok (Scalar.ofBytes (s.unread.take (Scalar.size α))) (s.skip (Scalar.size α)) := by
  have hload := load_unread beyond (s := s) (i := 0) (n := Scalar.size α) (by omega) Scalar.size_pos
  rw [Nat.zero_add, List.drop_zero] at hload
  rw [get, if_pos (hasRemaining_of_le Scalar.size_pos h _), hload]
  rfl

theorem getArray_eq {n : Nat} (h : n * Scalar.size α ≤ s.unread.length) :
    getArray beyond α n s = .ok (valuesOf α n s.unread) (s.skip (n * Scalar.size α)) := by
  induction n generalizing s with
  | zero => rw [Nat.zero_mul]; rfl
  | succ n ih =>
    rw [Nat.succ_mul] at h ⊢
    have hrest : n * Scalar.size α ≤ (s.skip (Scalar.size α)).unread.length := by
      rw [unread_skip, List.length_drop]
      omega
    rw [getArray, get_eq beyond (by omega), Outcome.andThen_ok, ih hrest, Outcome.andThen_ok,
      unread_skip, skip_skip, Nat.add_comm, valuesOf]

theorem getString_eq {n : Nat} (h : n ≤ s.unread.length) :
    s.getString beyond n = .ok (s.unread.take n) (s.skip n) := by
  rcases Nat.eq_zero_or_pos n with rfl | hn
  · rw [getString, if_pos rfl, List.take_zero, skip_zero]
  · have hload := load_unread beyond (s := s) (i := 0) (n := n) (by omega) hn
    rw [Nat.zero_add, List.drop_zero] at hload
    rw [getString, if_neg (by omega), if_pos (hasRemaining_of_le hn h _), hload]
    rfl

/-- The bytes up to the first zero byte, and the bytes behind it. -/
def splitZero (bytes : List UInt8) : List UInt8 × List UInt8 :=
  (bytes.takeWhile (· ≠ 0), (bytes.dropWhile (· ≠ 0)).tail)

theorem getStringLoop_eq : ∀ {fuel : Nat} {s : MemoryStream}, s.Inside →
    s.unread.length ≤ fuel →
    ∃ n, n ≤ s.unread.length ∧
      getStringLoop beyond fuel s = .ok (splitZero s.unread).1 (s.skip n) ∧
      s.unread.drop n = (splitZero s.unread).2
  | 0, s, _, h => by
    have hnil : s.unread = [] := List.eq_nil_of_length_eq_zero (by omega)
    exact ⟨0, Nat.zero_le _, by rw [hnil]; rfl, by rw [hnil]; rfl⟩
  | fuel + 1, s, hin, h => by
    cases hu : s.unread with
    | nil =>
      have hend : ¬ s.readPosition < s.buffer.length := by
        have := congrArg List.length hu
        rw [unread, List.length_drop, List.length_nil] at this
        omega
      refine ⟨0, Nat.zero_le _, ?_, rfl⟩
      rw [getStringLoop, if_neg hend]
      rfl
    | cons c rest =>
      have hmore : s.readPosition < s.buffer.length := by
        have := congrArg List.length hu
        rw [unread, List.length_drop, List.length_cons] at this
        omega
      have hlen : 1 ≤ s.unread.length := by rw [hu]; exact Nat.succ_pos _
      have hc : (Scalar.ofBytes (s.unread.take 1) : UInt8) = c := by
        rw [hu]
        exact Scalar.ofBytes_byte c
      have hget : s.get beyond UInt8 = .ok c (s.skip 1) := by
        rw [get_eq beyond (α := UInt8) hlen]
        exact congrArg (Outcome.ok · _) hc
      have hrest : (s.skip 1).unread = rest := by rw [unread_skip, hu, List.drop_one, List.tail_cons]
      rw [getStringLoop, if_pos hmore, hget, Outcome.andThen_ok]
      by_cases hz : c = 0
      · refine ⟨1, Nat.succ_pos _, ?_, ?_⟩
        · simp [hz, splitZero]
        · simp [hz, splitZero]
      · -- the rest of the string is read by the remaining rounds
        rw [hu, List.length_cons] at h
        have hfuel : (s.skip 1).unread.length ≤ fuel := by rw [hrest]; omega
        obtain ⟨n, hn, hloop, hdrop⟩ := getStringLoop_eq (hin.skip hlen) hfuel
        rw [hrest] at hn hloop hdrop
        refine ⟨n + 1, by rw [List.length_cons]; omega, ?_, ?_⟩
        · rw [if_neg hz, hloop, Outcome.andThen_ok, skip_skip, Nat.add_comm]
          simp [hz, splitZero]
        · simp only [List.drop_succ_cons, hdrop, splitZero]
          simp [hz]

theorem getStringZero_eq (h : s.Inside) :
    ∃ n, n ≤ s.unread.length ∧ s.getStringZero beyond = .ok (splitZero s.unread).1 (s.skip n) ∧
      s.unread.drop n = (splitZero s.unread).2 :=
  getStringLoop_eq beyond h (Nat.le_refl _)

theorem getRemaining_eq (h : s.Inside) : s.getRemaining = .ok (ofBytes s.unread) s.exhaust :=
  if_pos h

theorem peek_eq {position : Nat} (h : position + Scalar.size α ≤ s.unread.length) :
    s.peek beyond α position =
      .ok (Scalar.ofBytes ((s.unread.drop position).take (Scalar.size α))) := by
  have hpos : 0 < Scalar.size α := Scalar.size_pos
  rw [peek, if_pos (hasRemaining_of_le (by omega) h _), load_unread beyond h hpos]

theorem shrink_eq (h : s.Inside) : s.shrink = .ok () (ofBytes s.unread) := by
  by_cases hz : s.readPosition = 0
  · rw [shrink, if_pos hz, unread, hz, List.drop_zero, ofBytes, ← hz]
  · rw [shrink, if_neg hz, if_pos h.le]
    rfl

theorem toVector_eq (h : s.Inside) : s.toVector = .ok s.unread s.exhaust := by
  have hsub : s.buffer.length - (s.buffer.length - s.readPosition) = s.readPosition :=
    Nat.sub_sub_self h
  rw [toVector, if_pos h.le, hsub]
  rfl

theorem writeTo_some_eq {n : Nat} (hn : 0 < n) (h : n ≤ s.unread.length) :
    s.writeTo beyond (some n) = .ok (s.unread.take n) (s.skip n) := by
  have hload := load_unread beyond (s := s) (i := 0) (n := n) (by omega) hn
  rw [Nat.zero_add, List.drop_zero] at hload
  simp only [writeTo, hasRemaining_of_le hn h, if_true, hload]
  rfl

theorem writeTo_none_eq (h : s.Inside) : s.writeTo beyond none = .ok s.unread s.exhaust :=
  if_pos h

end Spec

/-! ## Bytes in their place -/

section Store

variable {s t : MemoryStream} {i : Nat} {bytes : List UInt8}

theorem store_eq_some (h : i + bytes.length ≤ s.buffer.length) :
    s.store i bytes = some { s with
      buffer := s.buffer.take i ++ bytes ++ s.buffer.drop (i + bytes.length) } := if_pos h

theorem length_store (h : s.store i bytes = some t) : t.buffer.length = s.buffer.length := by
  rw [store] at h
  split at h
  · cases h
    simp only [List.length_append, List.length_take, List.length_drop]
    omega
  · cases h

/-- The bytes that were stored are found where they were stored. -/
theorem load_store (beyond : Beyond) (h : s.store i bytes = some t) :
    t.load beyond i bytes.length = some bytes := by
  have hlen := length_store h
  rw [store] at h
  split at h
  · rename_i hle
    cases h
    rw [load_of_le beyond (by rw [hlen]; exact hle)]
    have htake : (s.buffer.take i).length = i := by
      rw [List.length_take]
      omega
    simp only [List.append_assoc]
    rw [List.drop_left' htake, List.take_left]
  · cases h

/-- Every other byte is as before. -/
theorem store_frame (h : s.store i bytes = some t) {j : Nat} (hj : j < i ∨ i + bytes.length ≤ j) :
    t.buffer[j]? = s.buffer[j]? := by
  rw [store] at h
  split at h
  · rename_i hle
    cases h
    have htake : (s.buffer.take i).length = i := by
      rw [List.length_take]
      omega
    rcases hj with hbefore | hbehind
    · rw [List.append_assoc, List.getElem?_append_left (by rwa [htake]),
        List.getElem?_take_of_lt hbefore]
    · have hfront : (s.buffer.take i ++ bytes).length = i + bytes.length := by
        rw [List.length_append, htake]
      rw [List.getElem?_append_right (by rwa [hfront]), hfront, List.getElem?_drop,
        Nat.add_sub_of_le hbehind]
  · cases h

end Store

end MemoryStream

end KeycapRoot.Network
