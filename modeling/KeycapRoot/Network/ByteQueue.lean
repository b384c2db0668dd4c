import KeycapRoot.Lib.Refinement
import KeycapRoot.Network.MemoryStream

/-!
# A memory stream is a queue of bytes

`Queue.step` is what a plain queue of bytes answers to the operations of a stream, as long as each
bounded read asks for at least one byte and for no more than the queue holds. `perform_simulates`
shows one operation at a time that a stream answers as the queue of its unread bytes would, and
`stream_refines_queue` carries this to all sequences of operations. The typed view (`Value`,
`TypedStep`) is the use a protocol makes of it: values come back as they were put, in order.
-/

namespace KeycapRoot.Network

open LittleEndian LittleEndian.Scalar

/-- The integer types of one, two, four and eight bytes. -/
inductive IntType
  | uint8 | uint16 | uint32 | uint64 | int8 | int16 | int32 | int64
  deriving DecidableEq, Repr

abbrev IntType.Val : IntType → Type
  | .uint8 => UInt8
  | .uint16 => UInt16
  | .uint32 => UInt32
  | .uint64 => UInt64
  | .int8 => Int8
  | .int16 => Int16
  | .int32 => Int32
  | .int64 => Int64

instance : (t : IntType) → Scalar t.Val
  | .uint8 => inferInstanceAs (Scalar UInt8)
  | .uint16 => inferInstanceAs (Scalar UInt16)
  | .uint32 => inferInstanceAs (Scalar UInt32)
  | .uint64 => inferInstanceAs (Scalar UInt64)
  | .int8 => inferInstanceAs (Scalar Int8)
  | .int16 => inferInstanceAs (Scalar Int16)
  | .int32 => inferInstanceAs (Scalar Int32)
  | .int64 => inferInstanceAs (Scalar Int64)

/-- The operations of a stream. -/
inductive StreamOp
  | put (t : IntType) (value : t.Val)
  | putString (string : List UInt8)
  | putSpan (t : IntType) (data : List t.Val)
  | putVector (t : IntType) (vec : List t.Val)
  | putArray (t : IntType) (value : List t.Val)
  | get (t : IntType)
  | getArray (t : IntType) (n : Nat)
  | getString (size : Nat)
  | getStringZero
  | peek (t : IntType) (position : Nat)
  | size
  | hasDataRemaining
  | shrink
  | clear
  | getRemaining
  | toVector
  | writeTo (numBytes : Option Nat)

/-- What an operation returns; `S` stands for the stream that `get_remaining` makes. -/
inductive Reply (S : Type)
  | void
  | int (t : IntType) (value : t.Val)
  | array (t : IntType) (value : List t.Val)
  | bytes (value : List UInt8)
  | size (value : Nat)
  | bool (value : Bool)
  | stream (value : S)

def Reply.map {S T : Type} (f : S → T) : Reply S → Reply T
  | .void => .void
  | .int t v => .int t v
  | .array t vs => .array t vs
  | .bytes bs => .bytes bs
  | .size n => .size n
  | .bool b => .bool b
  | .stream s => .stream (f s)

/-- The operation on a stream. -/
def StreamOp.exec (beyond : Beyond) (s : MemoryStream) :
    StreamOp → Outcome MemoryStream (Reply MemoryStream)
  | .put _ v => .ok .void (s.put v)
  | .putString str => .ok .void (s.putString str)
  | .putSpan _ vs => .ok .void (s.putSpan vs)
  | .putVector _ vs => .ok .void (s.putVector vs)
  | .putArray _ vs => .ok .void (s.putArray vs)
  | .get t => (s.get beyond t.Val).andThen fun v s => .ok (.int t v) s
  | .getArray t n => (s.getArray beyond t.Val n).andThen fun vs s => .ok (.array t vs) s
  | .getString n => (s.getString beyond n).andThen fun str s => .ok (.bytes str) s
  | .getStringZero => (s.getStringZero beyond).andThen fun str s => .ok (.bytes str) s
  | .peek t position =>
    match s.peek beyond t.Val position with
    | .ok v => .ok (.int t v) s
    | .error e => .error e s
  | .size => .ok (.size s.size) s
  | .hasDataRemaining => .ok (.bool s.hasDataRemaining) s
  | .shrink => s.shrink.andThen fun _ s => .ok .void s
  | .clear => .ok .void s.clear
  | .getRemaining => s.getRemaining.andThen fun rest s => .ok (.stream rest) s
  | .toVector => s.toVector.andThen fun vec s => .ok (.bytes vec) s
  | .writeTo n => (s.writeTo beyond n).andThen fun bytes s => .ok (.bytes bytes) s

/-- The reply of a call that returns, a stream in it read as the queue of its unread bytes. -/
def StreamOp.perform (beyond : Beyond) (op : StreamOp) (s : MemoryStream) :
    Option (Reply (List UInt8) × MemoryStream) :=
  match op.exec beyond s with
  | .ok r s' => some (r.map MemoryStream.unread, s')
  | .error _ _ => none

/-- A queue of bytes, which promises nothing on a bounded read of no byte or of too many. -/
def Queue.step : StreamOp → List UInt8 → Option (Reply (List UInt8) × List UInt8)
  | .put _ v, q => some (.void, q ++ toBytes v)
  | .putString str, q => some (.void, q ++ str)
  | .putSpan _ vs, q => some (.void, q ++ bytesOf vs)
  | .putVector _ vs, q => some (.void, q ++ bytesOf vs)
  | .putArray _ vs, q => some (.void, q ++ bytesOf vs)
  | .get t, q =>
    if size t.Val ≤ q.length then
      some (.int t (ofBytes (q.take (size t.Val))), q.drop (size t.Val))
    else none
  | .getArray t n, q =>
    if 0 < n ∧ n * size t.Val ≤ q.length then
      some (.array t (valuesOf t.Val n q), q.drop (n * size t.Val))
    else none
  | .getString n, q =>
    if 0 < n ∧ n ≤ q.length then some (.bytes (q.take n), q.drop n) else none
  | .getStringZero, q =>
    some (.bytes (MemoryStream.splitZero q).1, (MemoryStream.splitZero q).2)
  | .peek t position, q =>
    if position + size t.Val ≤ q.length then
      some (.int t (ofBytes ((q.drop position).take (size t.Val))), q)
    else none
  | .size, q => some (.size q.length, q)
  | .hasDataRemaining, q => some (.bool (q.length != 0), q)
  | .shrink, q => some (.void, q)
  | .clear, _ => some (.void, [])
  | .getRemaining, q => some (.stream q, [])
  | .toVector, q => some (.bytes q, [])
  | .writeTo none, q => some (.bytes q, [])
  | .writeTo (some n), q =>
    if 0 < n ∧ n ≤ q.length then some (.bytes (q.take n), q.drop n) else none

/-- The stream holds exactly the bytes of the queue unread. -/
def Represents (s : MemoryStream) (q : List UInt8) : Prop := s.Inside ∧ s.unread = q

theorem Represents.append {s : MemoryStream} {q : List UInt8} (h : Represents s q)
    (bytes : List UInt8) : Represents (s.append bytes) (q ++ bytes) :=
  ⟨h.1.append bytes, by rw [h.1.unread_append, h.2]⟩

theorem Represents.skip {s : MemoryStream} {q : List UInt8} (h : Represents s q) {n : Nat}
    (hn : n ≤ q.length) : Represents (s.skip n) (q.drop n) :=
  ⟨h.1.skip (h.2 ▸ hn), by rw [MemoryStream.unread_skip, h.2]⟩

theorem represents_exhaust (s : MemoryStream) : Represents s.exhaust [] :=
  ⟨s.inside_exhaust, s.unread_exhaust⟩

theorem represents_ofBytes (bytes : List UInt8) :
    Represents (MemoryStream.ofBytes bytes) bytes :=
  ⟨MemoryStream.inside_ofBytes bytes, MemoryStream.unread_ofBytes bytes⟩

/-! ## One operation -/

/-- **One operation**: a stream answers as the queue of its unread bytes does. -/
theorem perform_simulates (beyond : Beyond) :
    Refinement.Simulates Represents (StreamOp.perform beyond) Queue.step := by
  intro op s q r q' h hstep
  obtain ⟨hin, hq⟩ := h
  cases op with
  | put t v => cases hstep; exact ⟨_, rfl, .append ⟨hin, hq⟩ _⟩
  | putString str => cases hstep; exact ⟨_, rfl, .append ⟨hin, hq⟩ _⟩
  | putSpan t vs => cases hstep; exact ⟨_, rfl, .append ⟨hin, hq⟩ _⟩
  | putArray t vs => cases hstep; exact ⟨_, rfl, .append ⟨hin, hq⟩ _⟩
  | putVector t vs =>
    cases hstep
    exact ⟨s.putVector vs, rfl, by rw [s.putVector_eq]; exact .append ⟨hin, hq⟩ _⟩
  | get t =>
    simp only [Queue.step, Option.ite_none_right_eq_some] at hstep
    obtain ⟨hlen, heq⟩ := hstep
    cases heq
    refine ⟨_, ?_, .skip ⟨hin, hq⟩ hlen⟩
    rw [StreamOp.perform, StreamOp.exec, MemoryStream.get_eq beyond (hq ▸ hlen), hq]
    rfl
  | getArray t n =>
    simp only [Queue.step, Option.ite_none_right_eq_some] at hstep
    obtain ⟨⟨-, hlen⟩, heq⟩ := hstep
    cases heq
    refine ⟨_, ?_, .skip ⟨hin, hq⟩ hlen⟩
    rw [StreamOp.perform, StreamOp.exec, MemoryStream.getArray_eq beyond (hq ▸ hlen), hq]
    rfl
  | getString n =>
    simp only [Queue.step, Option.ite_none_right_eq_some] at hstep
    obtain ⟨⟨-, hlen⟩, heq⟩ := hstep
    cases heq
    refine ⟨_, ?_, .skip ⟨hin, hq⟩ hlen⟩
    rw [StreamOp.perform, StreamOp.exec, MemoryStream.getString_eq beyond (hq ▸ hlen), hq]
    rfl
  | getStringZero =>
    cases hstep
    obtain ⟨n, hn, hget, hdrop⟩ := MemoryStream.getStringZero_eq beyond hin
    rw [hq] at hn hget hdrop
    refine ⟨s.skip n, ?_, hdrop ▸ .skip ⟨hin, hq⟩ hn⟩
    rw [StreamOp.perform, StreamOp.exec, hget]
    rfl
  | peek t position =>
    simp only [Queue.step, Option.ite_none_right_eq_some] at hstep
    obtain ⟨hlen, heq⟩ := hstep
    cases heq
    refine ⟨s, ?_, hin, hq⟩
    rw [StreamOp.perform, StreamOp.exec, MemoryStream.peek_eq beyond (hq ▸ hlen), hq]
    rfl
  | size =>
    cases hstep
    refine ⟨s, ?_, hin, hq⟩
    rw [StreamOp.perform, StreamOp.exec, hin.size_eq, hq]
    rfl
  | hasDataRemaining =>
    cases hstep
    refine ⟨s, ?_, hin, hq⟩
    rw [StreamOp.perform, StreamOp.exec, MemoryStream.hasDataRemaining, hin.size_eq, hq]
    rfl
  | shrink =>
    cases hstep
    refine ⟨_, ?_, represents_ofBytes q⟩
    rw [StreamOp.perform, StreamOp.exec, MemoryStream.shrink_eq hin, hq]
    rfl
  | clear => cases hstep; exact ⟨_, rfl, represents_ofBytes []⟩
  | getRemaining =>
    cases hstep
    refine ⟨_, ?_, represents_exhaust s⟩
    rw [StreamOp.perform, StreamOp.exec, MemoryStream.getRemaining_eq hin, hq]
    rfl
  | toVector =>
    cases hstep
    refine ⟨_, ?_, represents_exhaust s⟩
    rw [StreamOp.perform, StreamOp.exec, MemoryStream.toVector_eq hin, hq]
    rfl
  | writeTo numBytes =>
    cases numBytes with
    | none =>
      cases hstep
      refine ⟨_, ?_, represents_exhaust s⟩
      rw [StreamOp.perform, StreamOp.exec, MemoryStream.writeTo_none_eq beyond hin, hq]
      rfl
    | some n =>
      simp only [Queue.step, Option.ite_none_right_eq_some] at hstep
      obtain ⟨⟨hn, hlen⟩, heq⟩ := hstep
      cases heq
      refine ⟨_, ?_, .skip ⟨hin, hq⟩ hlen⟩
      rw [StreamOp.perform, StreamOp.exec, MemoryStream.writeTo_some_eq beyond hn (hq ▸ hlen), hq]
      rfl

/-- The operations that look at a stream or only tidy its buffer. -/
def StreamOp.Observes : StreamOp → Prop
  | .peek _ _ | .size | .hasDataRemaining | .shrink => True
  | _ => False

/-- These leave the unread bytes as they are. -/
theorem perform_observes {beyond : Beyond} {op : StreamOp} (hop : op.Observes) {s s' : MemoryStream}
    {r : Reply (List UInt8)} (hin : s.Inside) (h : op.perform beyond s = some (r, s')) :
    s'.Inside ∧ s'.unread = s.unread := by
  cases op with
  | peek t position =>
    rw [StreamOp.perform, StreamOp.exec] at h
    cases hp : s.peek beyond t.Val position with
    | ok v => rw [hp] at h; cases h; exact ⟨hin, rfl⟩
    | error e => rw [hp] at h; cases h
  | size => cases h; exact ⟨hin, rfl⟩
  | hasDataRemaining => cases h; exact ⟨hin, rfl⟩
  | shrink =>
    rw [StreamOp.perform, StreamOp.exec, MemoryStream.shrink_eq hin] at h
    cases h
    exact represents_ofBytes s.unread
  | _ => exact hop.elim

/-! ## Typed values -/

/-- The containers of integers that `put` takes. -/
inductive Container
  | vector | array | span
  deriving DecidableEq, Repr

/-- A value that is put on a stream. -/
inductive Value
  | int (t : IntType) (value : t.Val)
  | ints (c : Container) (t : IntType) (values : List t.Val)
  | string (value : List UInt8)

/-- The type of a value, with the length that its reader has to know. -/
inductive Shape
  | int (t : IntType)
  | ints (c : Container) (t : IntType) (n : Nat)
  | string (n : Nat)

def Value.shape : Value → Shape
  | .int t _ => .int t
  | .ints c t vs => .ints c t vs.length
  | .string str => .string str.length

/-- The bytes of a value. -/
def Value.bytes : Value → List UInt8
  | .int _ v => toBytes v
  | .ints _ _ vs => bytesOf vs
  | .string str => str

def Value.put (s : MemoryStream) : Value → MemoryStream
  | .int _ v => s.put v
  | .ints .vector _ vs => s.putVector vs
  | .ints .array _ vs => s.putArray vs
  | .ints .span _ vs => s.putSpan vs
  | .string str => s.putString str

/-- Reads a value of the shape: integers one by one, a string by its length. -/
def Shape.get (beyond : Beyond) (s : MemoryStream) : Shape → Outcome MemoryStream Value
  | .int t => (s.get beyond t.Val).andThen fun v s => .ok (.int t v) s
  | .ints c t n => (s.getArray beyond t.Val n).andThen fun vs s => .ok (.ints c t vs) s
  | .string n => (s.getString beyond n).andThen fun str s => .ok (.string str) s

inductive TypedStep
  | put (value : Value)
  | shrink
  | get (shape : Shape)

/-- The values that the `get` steps return, and the stream after all steps. -/
def TypedStep.trace (beyond : Beyond) :
    List TypedStep → MemoryStream → Option (List Value × MemoryStream)
  | [], s => some ([], s)
  | .put v :: steps, s => trace beyond steps (v.put s)
  | .shrink :: steps, s =>
    match s.shrink with
    | .ok _ s' => trace beyond steps s'
    | .error _ _ => none
  | .get shape :: steps, s =>
    match shape.get beyond s with
    | .ok v s' => (trace beyond steps s').map fun (vs, t) => (v :: vs, t)
    | .error _ _ => none

/-- The values that the steps put. -/
def TypedStep.puts : List TypedStep → List Value
  | [] => []
  | .put v :: steps => v :: puts steps
  | _ :: steps => puts steps

/-- The steps read the values back by their shapes, in order, the shapes in the list first. -/
def TypedStep.InOrder : List Shape → List TypedStep → Prop
  | _, [] => True
  | pending, .put v :: steps => InOrder (pending ++ [v.shape]) steps
  | pending, .shrink :: steps => InOrder pending steps
  | [], .get _ :: _ => False
  | shape :: pending, .get shape' :: steps => shape = shape' ∧ InOrder pending steps

theorem Value.represents_put {s : MemoryStream} {q : List UInt8} (h : Represents s q) (v : Value) :
    Represents (v.put s) (q ++ v.bytes) := by
  cases v with
  | int t v => exact h.append _
  | string str => exact h.append _
  | ints c t vs =>
    cases c with
    | vector => rw [Value.put, s.putVector_eq]; exact h.append _
    | array => exact h.append _
    | span => exact h.append _

/-- A value at the front of the queue is read back by its shape. -/
theorem Value.get_shape (beyond : Beyond) {s : MemoryStream} {q : List UInt8} (v : Value)
    (h : Represents s (v.bytes ++ q)) :
    ∃ s', v.shape.get beyond s = .ok v s' ∧ Represents s' q := by
  have hle : v.bytes.length ≤ s.unread.length := by
    rw [h.2, List.length_append]
    exact Nat.le_add_right _ _
  have hskip : Represents (s.skip v.bytes.length) q := by
    have := h.skip (n := v.bytes.length) (h.2 ▸ hle)
    rwa [List.drop_left] at this
  refine ⟨s.skip v.bytes.length, ?_, hskip⟩
  cases v with
  | int t v =>
    have hlen : (toBytes v).length = size t.Val := length_toBytes v
    have htake : s.unread.take (size t.Val) = toBytes v := by
      rw [h.2, Value.bytes, ← hlen, List.take_left]
    rw [Value.bytes, hlen] at hle ⊢
    rw [Value.shape, Shape.get, MemoryStream.get_eq beyond hle, htake, ofBytes_toBytes]
    rfl
  | ints c t vs =>
    have hvs : valuesOf t.Val vs.length s.unread = vs := by rw [h.2]; exact valuesOf_bytesOf vs q
    rw [Value.bytes, length_bytesOf] at hle ⊢
    rw [Value.shape, Shape.get, MemoryStream.getArray_eq beyond hle, hvs]
    rfl
  | string str =>
    have htake : s.unread.take str.length = str := by rw [h.2]; exact List.take_left
    rw [Value.bytes] at hle ⊢
    rw [Value.shape, Shape.get, MemoryStream.getString_eq beyond hle, htake]
    rfl

/-- **Values come back in order.** The values that are read, then those still pending, are those
that were pending before, then those that were put. -/
theorem typed_fifo (beyond : Beyond) {steps : List TypedStep} {pending : List Value}
    {s : MemoryStream} (h : Represents s (pending.flatMap Value.bytes))
    (horder : TypedStep.InOrder (pending.map Value.shape) steps) :
    ∃ got s' rest, TypedStep.trace beyond steps s = some (got, s') ∧
      got ++ rest = pending ++ TypedStep.puts steps ∧
      Represents s' (rest.flatMap Value.bytes) := by
  induction steps generalizing pending s with
  | nil => exact ⟨[], s, pending, rfl, (List.append_nil pending).symm, h⟩
  | cons step steps ih =>
    cases step with
    | put v =>
      have hput : Represents (v.put s) ((pending ++ [v]).flatMap Value.bytes) := by
        rw [List.flatMap_append, List.flatMap_singleton]
        exact Value.represents_put h v
      obtain ⟨got, s', rest, htrace, heq, hR⟩ := ih hput (by rw [List.map_append]; exact horder)
      refine ⟨got, s', rest, htrace, ?_, hR⟩
      rw [heq, List.append_assoc]
      rfl
    | shrink =>
      have hshrunk : Represents (MemoryStream.ofBytes s.unread) (pending.flatMap Value.bytes) :=
        h.2 ▸ represents_ofBytes s.unread
      obtain ⟨got, s', rest, htrace, heq, hR⟩ := ih hshrunk horder
      refine ⟨got, s', rest, ?_, heq, hR⟩
      rw [TypedStep.trace, MemoryStream.shrink_eq h.1]
      exact htrace
    | get shape =>
      cases pending with
      | nil => exact horder.elim
      | cons v pending =>
        obtain ⟨rfl, horder⟩ := horder
        obtain ⟨s₁, hget, hR₁⟩ := Value.get_shape beyond v h
        obtain ⟨got, s', rest, htrace, heq, hR⟩ := ih hR₁ horder
        refine ⟨v :: got, s', rest, ?_, ?_, hR⟩
        · rw [TypedStep.trace, hget]
          simp only [htrace, Option.map_some]
        · rw [List.cons_append, heq]
          rfl

/-! ## Sequences of operations -/

/-- **A stream refines a queue of bytes.** Every sequence of operations that a queue of the unread
bytes promises to answer is answered alike; looking at a stream changes no unread byte; and typed
values are read back as they were put, in order, with shrinks and further puts in between. -/
theorem stream_refines_queue (beyond : Beyond) :
    (∀ (ops : List StreamOp) (s : MemoryStream) (rs : List (Reply (List UInt8)))
      (q' : List UInt8), s.Inside → Refinement.trace Queue.step ops s.unread = some (rs, q') →
      ∃ s', Refinement.trace (StreamOp.perform beyond) ops s = some (rs, s') ∧
        s'.Inside ∧ s'.unread = q') ∧
    (∀ (op : StreamOp) (s s' : MemoryStream) (r : Reply (List UInt8)), op.Observes → s.Inside →
      op.perform beyond s = some (r, s') → s'.unread = s.unread) ∧
    (∀ steps : List TypedStep, TypedStep.InOrder [] steps →
      ∃ got s' rest, TypedStep.trace beyond steps {} = some (got, s') ∧
        got ++ rest = TypedStep.puts steps ∧ s'.unread = rest.flatMap Value.bytes) := by
  refine ⟨?_, ?_, ?_⟩
  · intro ops s rs q' hin htrace
    exact (perform_simulates beyond).trace ⟨hin, rfl⟩ htrace
  · intro op s s' r hop hin h
    exact (perform_observes hop hin h).2
  · intro steps h
    have hempty : Represents {} (([] : List Value).flatMap Value.bytes) := represents_ofBytes []
    obtain ⟨got, s', rest, htrace, heq, hR⟩ := typed_fifo beyond hempty h
    exact ⟨got, s', rest, htrace, heq, hR.2⟩

theorem stream_refines_queue_sample :
    ∃ s', Refinement.trace (StreamOp.perform fun _ => none)
      [.put .uint32 0xDEADBEEF, .get .uint8, .shrink, .putString [7, 0, 9], .peek .uint16 1,
        .getArray .uint8 3, .getStringZero, .size] {} =
      some ([.void, .int .uint8 0xEF, .void, .void, .int .uint16 0xDEAD,
        .array .uint8 [0xBE, 0xAD, 0xDE], .bytes [7], .size 1], s') ∧
      s'.Inside ∧ s'.unread = [9] :=
  (stream_refines_queue _).1 _ {} _ _ (by decide) rfl

end KeycapRoot.Network
