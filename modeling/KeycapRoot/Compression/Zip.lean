import KeycapRoot.Compression.Zlib

/-!
# Compression

`compress` hands all its data to zlib at once; `decompress` inflates in blocks of 1024 bytes, with
one loop that refills the input around another that drains the output. The inner loop appends the
whole block of output after every call, however much of it the call has written, and only the end of
the result is cut off. So what it returns is the text as long as no call but the last writes less
than a block. That is sure if the whole stream fits in the first block of input; of longer streams
only those of zero bytes survive every inflater (`roundTrips_iff`).
-/

namespace KeycapRoot.Compression

namespace Zip

variable {σ : Type}

/-! ## The code -/

/-- A `z_stream`. `nextIn` counts from the start of the data; there is no state after
`inflateEnd`. -/
structure ZStream (σ : Type) where
  state : Option σ
  nextIn : Nat := 0
  availIn : Nat := 0
  totalIn : Nat := 0
  availOut : Nat := 0
  totalOut : Nat := 0

/-- zlib's `inflate(&stream, Z_NO_FLUSH)` with the stream over `source`: its return value and the
bytes that it writes. -/
def ZStream.inflate (zlib : Zlib σ) (source : List UInt8) (stream : ZStream σ) :
    Status × List UInt8 × ZStream σ :=
  match stream.state with
  | none => (.streamError, [], stream)
  | some state =>
    let r := zlib.inflate state ((source.drop stream.nextIn).take stream.availIn) stream.availOut
    (r.ret, r.written, {
      state := some r.state
      nextIn := stream.nextIn + r.consumed
      availIn := stream.availIn - r.consumed
      totalIn := stream.totalIn + r.consumed
      availOut := stream.availOut - r.written.length
      totalOut := stream.totalOut + r.written.length })

def bufferSize : Nat := 1024

/-- The variables of `impl::inflate`. -/
structure Locals (σ : Type) where
  stream : ZStream σ
  out : List UInt8 := List.replicate bufferSize 0
  data : List UInt8 := []

/-- `resize` of a vector of bytes. -/
def resize (v : List UInt8) (n : Nat) : List UInt8 :=
  v.take n ++ List.replicate (n - v.length) 0

section Inflate

variable (zlib : Zlib σ) (source : List UInt8)

/-- The body of the inner loop. What a call does not overwrite of `out` stays in it. -/
def inflateBlock (l : Locals σ) : Status × Locals σ :=
  let (ret, written, stream) :=
    { l.stream with availOut := bufferSize }.inflate zlib source
  let out := written ++ l.out.drop written.length
  let stream :=
    match ret with
    | .streamError => { stream with state := none }
    | .needDict => { stream with state := none }
    | .dataError => { stream with state := none }
    | .memError => { stream with state := none }
    | _ => stream
  (ret, { stream, out, data := l.data ++ out })

/-- The inner loop, with `ret` as it is at its end. -/
def drain : Nat → Locals σ → Option (Status × Locals σ)
  | 0, _ => none
  | fuel + 1, l =>
    let (ret, l) := inflateBlock zlib source l
    if l.stream.availOut = 0 then drain fuel l else some (ret, l)

/-- The body of the outer loop up to the inner one. -/
def refillBlock (l : Locals σ) : Locals σ :=
  let availIn :=
    if source.length - l.stream.totalIn < bufferSize then source.length - l.stream.totalIn
    else bufferSize
  { l with stream := { l.stream with availIn, nextIn := l.stream.totalIn } }

/-- The outer loop. Every run of the inner loop may take `inner` rounds. -/
def refill (inner : Nat) : Nat → Locals σ → Option (Locals σ)
  | 0, _ => none
  | fuel + 1, l =>
    match drain zlib source inner (refillBlock source l) with
    | none => none
    | some (ret, l) => if ret = .streamEnd then some l else refill inner fuel l

/-- `impl::inflate(data, ptr, size)` on empty data. There is no result when a loop takes more than
`fuel` rounds. -/
def inflate (fuel : Nat) : Option (List UInt8) :=
  match zlib.inflateInit with
  | none => some []
  | some state =>
    match refill zlib source fuel fuel { stream := { state := some state } } with
    | none => none
    | some l => some (resize l.data l.stream.totalOut)

end Inflate

/-- `compress(begin, end)`, with `impl::compress`. A range is shorter than 2^63 bytes, so that the
assertion about its length holds. -/
def compress (zlib : Zlib σ) (range : List UInt8) : List UInt8 :=
  if range.isEmpty then []
  else
    match zlib.compress2 range 8 (zlib.compressBound range.length) with
    | some buffer => buffer
    | none => []

/-- `decompress(begin, end)`, with `impl::decompress`. -/
def decompress (zlib : Zlib σ) (fuel : Nat) (range : List UInt8) : Option (List UInt8) :=
  if range.isEmpty then some [] else inflate zlib range fuel

/-! ## Fuel -/

section Fuel

variable {zlib : Zlib σ} {source : List UInt8}

/-- More fuel changes no result. -/
theorem drain_add {fuel : Nat} {l : Locals σ} {r : Status × Locals σ}
    (h : drain zlib source fuel l = some r) (more : Nat) :
    drain zlib source (fuel + more) l = some r := by
  induction fuel generalizing l with
  | zero => cases h
  | succ fuel ih =>
    cases hblock : inflateBlock zlib source l with
    | mk ret l₁ =>
      rw [Nat.succ_add, drain, hblock]
      rw [drain, hblock] at h
      simp only at h ⊢
      split at h
      · exact (if_pos ‹_›).trans (ih h)
      · exact (if_neg ‹_›).trans h

theorem refill_add {inner fuel : Nat} {l l' : Locals σ}
    (h : refill zlib source inner fuel l = some l') (more : Nat) :
    refill zlib source (inner + more) (fuel + more) l = some l' := by
  induction fuel generalizing l with
  | zero => cases h
  | succ fuel ih =>
    rw [Nat.succ_add, refill]
    rw [refill] at h
    cases hdrain : drain zlib source inner (refillBlock source l) with
    | none => simp [hdrain] at h
    | some r =>
      simp only [drain_add hdrain more]
      simp only [hdrain] at h
      split at h
      · rename_i hret
        rw [if_pos hret]
        exact h
      · rename_i hret
        rw [if_neg hret]
        exact ih h

theorem inflate_add {fuel : Nat} {y : List UInt8} (h : inflate zlib source fuel = some y)
    (more : Nat) : inflate zlib source (fuel + more) = some y := by
  rw [inflate] at h ⊢
  cases hinit : zlib.inflateInit with
  | none =>
    rw [hinit] at h
    exact h
  | some state =>
    simp only [hinit] at h ⊢
    cases hrefill : refill zlib source fuel fuel { stream := { state := some state } } with
    | none => simp [hrefill] at h
    | some l =>
      rw [hrefill] at h
      rw [refill_add hrefill more]
      exact h

end Fuel

/-! ## Blocks of output -/

/-- What is appended to the data for some writes, if `out` is what the first of them overwrites. -/
def blocks (out : List UInt8) : List (List UInt8) → List UInt8
  | [] => []
  | w :: ws => (w ++ out.drop w.length) ++ blocks (w ++ out.drop w.length) ws

/-- What is in `out` after some writes. -/
def leftIn (out : List UInt8) (ws : List (List UInt8)) : List UInt8 :=
  ws.foldl (fun out w => w ++ out.drop w.length) out

theorem blocks_append (out : List UInt8) (ws vs : List (List UInt8)) :
    blocks out (ws ++ vs) = blocks out ws ++ blocks (leftIn out ws) vs := by
  induction ws generalizing out with
  | nil => rfl
  | cons w ws ih => simp only [List.cons_append, blocks, ih, List.append_assoc, leftIn,
      List.foldl_cons]

section Blocks

variable {out : List UInt8} {ws : List (List UInt8)}

theorem length_overwrite {w : List UInt8} (h : w.length ≤ out.length) :
    (w ++ out.drop w.length).length = out.length := by
  rw [List.length_append, List.length_drop]
  omega

theorem length_flatten_le_blocks (h : ∀ w ∈ ws, w.length ≤ out.length) :
    ws.flatten.length ≤ (blocks out ws).length := by
  induction ws generalizing out with
  | nil => exact Nat.le_refl _
  | cons w ws ih =>
    obtain ⟨hw, hws⟩ := List.forall_mem_cons.1 h
    have hlen := length_overwrite hw
    have hrest := @ih (w ++ out.drop w.length) (by rwa [hlen])
    rw [List.flatten_cons, List.length_append, blocks, List.length_append]
    omega

/-- Full blocks with one more write behind them are the bytes written. -/
theorem blocks_of_full (last : List UInt8) (h : ∀ w ∈ ws, w.length = out.length) :
    (blocks out (ws ++ [last])).take (ws ++ [last]).flatten.length = (ws ++ [last]).flatten := by
  induction ws generalizing out with
  | nil =>
    simp only [List.nil_append, blocks, List.append_nil, List.flatten_singleton, List.take_left]
  | cons w ws ih =>
    obtain ⟨hw, hws⟩ := List.forall_mem_cons.1 h
    have hover : w ++ out.drop w.length = w := by
      rw [List.drop_of_length_le (Nat.le_of_eq hw.symm), List.append_nil]
    have hrest := @ih w fun v hv => by rw [hws v hv, hw]
    rw [List.cons_append, blocks, hover, List.flatten_cons, List.length_append,
      List.take_length_add_append, hrest]

/-- As long as zeros are written over zeros, zeros are appended. -/
theorem blocks_take_zero (hout : ∀ b ∈ out, b = 0) (hlen : ∀ w ∈ ws, w.length ≤ out.length)
    {n : Nat} (h : ∀ b ∈ ws.flatten.take n, b = 0) : ∀ b ∈ (blocks out ws).take n, b = 0 := by
  induction ws generalizing out n with
  | nil => simp [blocks]
  | cons w ws ih =>
    obtain ⟨hw, hws⟩ := List.forall_mem_cons.1 hlen
    have hover := length_overwrite hw
    rw [List.flatten_cons, List.take_append] at h
    obtain ⟨hfirst, hrest⟩ := List.forall_mem_append.1 h
    rw [blocks, List.take_append]
    refine List.forall_mem_append.2 ⟨?_, ?_⟩
    · intro b hb
      rw [List.take_append] at hb
      rcases List.mem_append.1 hb with hb | hb
      · exact hfirst b hb
      · exact hout b (List.mem_of_mem_drop (List.mem_of_mem_take hb))
    · by_cases hn : n ≤ w.length
      · rw [Nat.sub_eq_zero_of_le (by omega), List.take_zero]
        simp
      · -- the write is over before the block is, so all of it is zero
        have hzero : ∀ b ∈ w ++ out.drop w.length, b = 0 := by
          rw [List.take_of_length_le (by omega)] at hfirst
          exact List.forall_mem_append.2 ⟨hfirst, fun b hb => hout b (List.mem_of_mem_drop hb)⟩
        refine ih hzero (by rwa [hover]) fun b hb => hrest b ?_
        exact (List.take_subset_take_left _ (by omega)) hb

end Blocks

/-! ## The loops -/

/-- The variables of `impl::inflate` after a call of zlib with the result `r`. -/
def Locals.after (l : Locals σ) (r : Inflated σ) : Locals σ where
  stream := {
    state := if r.ret.isError then none else some r.state
    nextIn := l.stream.nextIn + r.consumed
    availIn := l.stream.availIn - r.consumed
    totalIn := l.stream.totalIn + r.consumed
    availOut := bufferSize - r.written.length
    totalOut := l.stream.totalOut + r.written.length }
  out := r.written ++ l.out.drop r.written.length
  data := l.data ++ (r.written ++ l.out.drop r.written.length)

theorem inflateBlock_eq {zlib : Zlib σ} {source : List UInt8} {l : Locals σ} {s : σ}
    (hs : l.stream.state = some s) (hnext : l.stream.nextIn = l.stream.totalIn) :
    let r := zlib.inflate s ((source.drop l.stream.totalIn).take l.stream.availIn) bufferSize
    inflateBlock zlib source l = (r.ret, l.after r) := by
  intro r
  simp only [inflateBlock, ZStream.inflate, hs, hnext]
  change (r.ret, _) = (r.ret, l.after r)
  unfold Locals.after
  cases r.ret <;> rw [hnext] <;> rfl

section Loops

variable {zlib : Zlib σ} {prompt : Prop} {x z : List UInt8} {ready : Nat → Nat}
  {At : σ → Nat → Nat → Prop}

/-- Inflating `z` is under way, within the text and the stream. -/
structure Reading (x z : List UInt8) (At : σ → Nat → Nat → Prop) (l : Locals σ) : Prop where
  state : ∃ s, l.stream.state = some s ∧ At s l.stream.totalIn l.stream.totalOut
  nextIn : l.stream.nextIn = l.stream.totalIn
  input : l.stream.totalIn + l.stream.availIn ≤ z.length
  output : l.stream.totalOut ≤ x.length
  out : l.out.length = bufferSize

/-- One round of the inner loop that writes `w`. -/
structure Round (x z : List UInt8) (l : Locals σ) (ret : Status) (w : List UInt8)
    (l' : Locals σ) : Prop where
  room : w.length ≤ bufferSize
  availOut : l'.stream.availOut = bufferSize - w.length
  out : l'.out = w ++ l.out.drop w.length
  data : l'.data = l.data ++ l'.out
  text : w = (x.drop l.stream.totalOut).take w.length
  totalOut : l'.stream.totalOut = l.stream.totalOut + w.length
  input : l'.stream.totalIn + l'.stream.availIn = l.stream.totalIn + l.stream.availIn
  ended : ret = .streamEnd → l'.stream.totalOut = x.length
  drained : ret ≠ .streamEnd → w.length < bufferSize →
    l'.stream.availIn = 0 ∧ l'.stream.totalIn < z.length

theorem inflateBlock_spec (hzlib : Conforms zlib prompt x z ready At) {l : Locals σ}
    (h : Reading x z At l) :
    ∃ ret w l', inflateBlock zlib z l = (ret, l') ∧ Reading x z At l' ∧ Round x z l ret w l' := by
  obtain ⟨s, hs, hat⟩ := h.state
  have hinput := h.input
  have houtput := h.output
  have hreply := hzlib.reply s _ _ hat l.stream.availIn bufferSize (by decide)
  have hnext := hzlib.next s _ _ hat l.stream.availIn bufferSize (by decide)
  have hlen : ((z.drop l.stream.totalIn).take l.stream.availIn).length = l.stream.availIn := by
    rw [List.length_take, List.length_drop]
    omega
  rw [hlen] at hreply
  generalize hr : zlib.inflate s ((z.drop l.stream.totalIn).take l.stream.availIn) bufferSize = r
    at hreply hnext
  have hconsumed := hreply.consumed_le
  have htext : l.stream.totalOut + r.written.length ≤ x.length := by
    have hle := congrArg List.length hreply.written_eq
    rw [List.length_take, List.length_drop] at hle
    omega
  -- none of the values that end the stream is returned
  have hnoerror : r.ret.isError = false := by
    rcases hreply.no_error with hret | hret | hret <;> rw [hret] <;> rfl
  have hstate : (l.after r).stream.state = some r.state := by
    rw [Locals.after, hnoerror]
    rfl
  have hcall : inflateBlock zlib z l = (r.ret, l.after r) := by
    rw [inflateBlock_eq hs h.nextIn, hr]
  refine ⟨_, r.written, _, hcall, ?_, ?_⟩
  · exact {
      state := ⟨r.state, hstate, hnext⟩
      nextIn := congrArg (· + r.consumed) h.nextIn
      input := by
        change l.stream.totalIn + r.consumed + (l.stream.availIn - r.consumed) ≤ z.length
        omega
      output := htext
      out := by
        rw [← h.out]
        exact length_overwrite (h.out ▸ hreply.written_le) }
  · exact {
      room := hreply.written_le
      availOut := rfl
      out := rfl
      data := rfl
      text := hreply.written_eq
      totalOut := rfl
      input := by
        change l.stream.totalIn + r.consumed + (l.stream.availIn - r.consumed) = _
        omega
      ended := hreply.end_only
      drained := fun hret hroom => by
        have hall : r.consumed = l.stream.availIn :=
          hreply.stops.resolve_right fun hor => hor.elim (Nat.ne_of_lt hroom) hret
        change l.stream.availIn - r.consumed = 0 ∧ l.stream.totalIn + r.consumed < z.length
        refine ⟨by omega, Nat.lt_of_le_of_ne (by omega) fun hend => hret ?_⟩
        -- with the stream consumed nothing is pending, so the text is written
        refine hreply.end_once (Nat.le_antisymm htext (Nat.le_of_not_lt fun hlt => ?_))
          (Or.inr hend)
        exact Nat.ne_of_lt hroom (hreply.pending (by rwa [hend, hzlib.ready_end])) }

/-- A run of the inner loop: full blocks, and one more write. -/
structure Drained (x z : List UInt8) (l : Locals σ) (ret : Status) (ws : List (List UInt8))
    (last : List UInt8) (l' : Locals σ) : Prop where
  full : ∀ w ∈ ws, w.length = bufferSize
  room : last.length < bufferSize
  data : l'.data = l.data ++ blocks l.out (ws ++ [last])
  out : l'.out = leftIn l.out (ws ++ [last])
  text : (ws ++ [last]).flatten =
    (x.drop l.stream.totalOut).take (ws ++ [last]).flatten.length
  totalOut : l'.stream.totalOut = l.stream.totalOut + (ws ++ [last]).flatten.length
  ended : ret = .streamEnd → l'.stream.totalOut = x.length
  drained : ret ≠ .streamEnd →
    l'.stream.totalIn = l.stream.totalIn + l.stream.availIn ∧ l'.stream.totalIn < z.length

theorem drain_spec (hzlib : Conforms zlib prompt x z ready At) (fuel : Nat) {l : Locals σ}
    (h : Reading x z At l) (hfuel : x.length - l.stream.totalOut < bufferSize * fuel) :
    ∃ ret ws last l', drain zlib z fuel l = some (ret, l') ∧ Reading x z At l' ∧
      Drained x z l ret ws last l' := by
  induction fuel generalizing l with
  | zero => omega
  | succ fuel ih =>
    obtain ⟨ret, w, l₁, hcall, h₁, hround⟩ := inflateBlock_spec hzlib h
    have hroom := hround.room
    have havail := hround.availOut
    have htotal := hround.totalOut
    by_cases hw : w.length = bufferSize
    · -- the block is full, and the loop goes on
      have hout : l₁.out = w := by
        rw [hround.out, List.drop_of_length_le (Nat.le_of_eq (h.out.trans hw.symm)),
          List.append_nil]
      have hdata : l₁.data = l.data ++ w := by rw [hround.data, hout]
      have hover : w ++ l.out.drop w.length = w := by rw [← hround.out, hout]
      obtain ⟨ret', ws, last, l', hdrain, h', hd⟩ := ih h₁ (by
        have := h₁.output
        rw [Nat.mul_succ] at hfuel
        omega)
      refine ⟨ret', w :: ws, last, l', ?_, h', ?_⟩
      · rw [drain, hcall]
        simp only [havail, hw, Nat.sub_self, if_true, hdrain]
      · have hflat : (w :: ws ++ [last]).flatten = w ++ (ws ++ [last]).flatten := rfl
        constructor
        · exact List.forall_mem_cons.2 ⟨hw, hd.full⟩
        · exact hd.room
        · rw [hd.data, hdata, hout, List.cons_append, blocks, hover, List.append_assoc]
        · rw [hd.out, hout, List.cons_append, leftIn, leftIn, List.foldl_cons, hover]
        · rw [hflat, List.length_append, List.take_add, ← hround.text, List.drop_drop,
            ← htotal, ← hd.text]
        · rw [hd.totalOut, htotal, hflat, List.length_append, Nat.add_assoc]
        · exact hd.ended
        · intro hret
          obtain ⟨hin, hlt⟩ := hd.drained hret
          exact ⟨hin.trans hround.input, hlt⟩
    · have hlt : w.length < bufferSize := Nat.lt_of_le_of_ne hroom hw
      refine ⟨ret, [], w, l₁, ?_, h₁, ?_⟩
      · rw [drain, hcall]
        simp only [havail]
        rw [if_neg (by omega)]
      · have hflat : ([] ++ [w]).flatten = w := List.append_nil w
        constructor
        · simp
        · exact hlt
        · rw [hround.data, hround.out, List.nil_append, blocks, blocks, List.append_nil]
        · exact hround.out
        · rw [hflat]
          exact hround.text
        · rw [hflat]
          exact htotal
        · exact hround.ended
        · intro hret
          obtain ⟨hin, hz⟩ := hround.drained hret hlt
          have := hround.input
          exact ⟨by omega, hz⟩

theorem Reading.refillBlock {l : Locals σ} (h : Reading x z At l) :
    Reading x z At (refillBlock z l) ∧
      (refillBlock z l).stream.availIn = min bufferSize (z.length - l.stream.totalIn) := by
  have hinput := h.input
  have havail : (Zip.refillBlock z l).stream.availIn =
      min bufferSize (z.length - l.stream.totalIn) := by
    change (if _ then _ else _) = _
    split <;> omega
  refine ⟨⟨h.state, rfl, ?_, h.output, h.out⟩, havail⟩
  rw [havail]
  change l.stream.totalIn + _ ≤ _
  omega

/-- **Inflating** comes to an end. What it has written is the rest of the text, and what it has
appended are the blocks of it. -/
theorem refill_spec (hzlib : Conforms zlib prompt x z ready At) (inner fuel : Nat) {l : Locals σ}
    (h : Reading x z At l) (hinner : x.length < bufferSize * inner)
    (hfuel : z.length - l.stream.totalIn < fuel) :
    ∃ ws l', refill zlib z inner fuel l = some l' ∧ (∀ w ∈ ws, w.length ≤ bufferSize) ∧
      l'.data = l.data ++ blocks l.out ws ∧ ws.flatten = x.drop l.stream.totalOut ∧
      l'.stream.totalOut = x.length := by
  induction fuel generalizing l with
  | zero => omega
  | succ fuel ih =>
    obtain ⟨hr, havail⟩ := h.refillBlock
    have htotal : (refillBlock z l).stream.totalOut = l.stream.totalOut := rfl
    have hin : (refillBlock z l).stream.totalIn = l.stream.totalIn := rfl
    obtain ⟨ret, ws, last, l₁, hdrain, h₁, hd⟩ := drain_spec hzlib inner hr (by omega)
    have hsize : ∀ w ∈ ws ++ [last], w.length ≤ bufferSize :=
      List.forall_mem_append.2 ⟨fun w hw => Nat.le_of_eq (hd.full w hw),
        List.forall_mem_singleton.2 (Nat.le_of_lt hd.room)⟩
    have hout₁ := hd.totalOut
    have htext := hd.text
    rw [htotal] at hout₁ htext
    rw [refill, hdrain]
    by_cases hret : ret = .streamEnd
    · refine ⟨ws ++ [last], l₁, by simp only [hret, if_true], hsize, hd.data, ?_, hd.ended hret⟩
      rw [htext]
      apply List.take_of_length_le
      have := hd.ended hret
      rw [List.length_drop]
      omega
    · obtain ⟨hin₁, hlt⟩ := hd.drained hret
      obtain ⟨vs, l', hrefill, hvs, hdata, hflat, hend⟩ := ih h₁ (by
        have := h.input
        have : 0 < bufferSize := by decide
        omega)
      refine ⟨(ws ++ [last]) ++ vs, l', ?_, List.forall_mem_append.2 ⟨hsize, hvs⟩, ?_, ?_, hend⟩
      · simp only [hret, if_false, hrefill]
      · rw [hdata, hd.data, hd.out, List.append_assoc, ← blocks_append]
        rfl
      · rw [List.flatten_append, hflat, hout₁, htext, ← List.drop_drop]
        rw [List.length_take_of_le (by
          have := congrArg List.length htext
          rw [List.length_take] at this
          omega)]
        exact List.take_append_drop _ _

theorem refill_start (hzlib : Conforms zlib prompt x z ready At) :
    ∃ s, zlib.inflateInit = some s ∧ Reading x z At { stream := { state := some s } } := by
  obtain ⟨s, hs, hat⟩ := hzlib.init
  exact ⟨s, hs, ⟨s, rfl, hat⟩, rfl, Nat.zero_le _, Nat.zero_le _, List.length_replicate⟩

end Loops

/-! ## Round trips -/

/-- Whatever inflater takes the stream `z` that `x` is compressed to, decompressing what has been
compressed ends, and ends with `x`. -/
def RoundTrips (prompt : Prop) (x z : List UInt8) : Prop :=
  ∀ (σ : Type) (zlib : Zlib σ) (ready : Nat → Nat) (At : σ → Nat → Nat → Prop),
    zlib.compress2 x 8 (zlib.compressBound x.length) = some z →
    Conforms zlib prompt x z ready At →
    ∃ enough, ∀ fuel ≥ enough, decompress zlib fuel (compress zlib x) = some x

theorem resize_of_le {v : List UInt8} {n : Nat} (h : n ≤ v.length) : resize v n = v.take n := by
  rw [resize, Nat.sub_eq_zero_of_le h, List.replicate_zero, List.append_nil]

theorem decompress_of_ne_nil (zlib : Zlib σ) (fuel : Nat) {z : List UInt8} (h : z ≠ []) :
    decompress zlib fuel z = inflate zlib z fuel := by
  rw [decompress, if_neg (by simpa using h)]

theorem compress_eq {zlib : Zlib σ} {x z : List UInt8} (hx : x ≠ [])
    (h : zlib.compress2 x 8 (zlib.compressBound x.length) = some z) : compress zlib x = z := by
  rw [compress, if_neg (by simpa using hx), h]

theorem zero_of_mem_replicate {n : Nat} : ∀ b ∈ List.replicate n (0 : UInt8), b = 0 :=
  fun _ hb => List.eq_of_mem_replicate hb

/-- The start of some zeros is any shorter list of zeros. -/
theorem take_eq_of_zero {v x : List UInt8} (hv : ∀ b ∈ v.take x.length, b = 0)
    (hx : ∀ b ∈ x, b = 0) (hlen : x.length ≤ v.length) : v.take x.length = x := by
  rw [List.eq_replicate_of_mem hv, List.length_take_of_le hlen]
  exact (List.eq_replicate_of_mem hx).symm

section Inflate

variable {zlib : Zlib σ} {prompt : Prop} {x z : List UInt8} {ready : Nat → Nat}
  {At : σ → Nat → Nat → Prop}

/-- A stream that fits in the first block of input is inflated by one run of the inner loop. -/
theorem inflate_of_short (hzlib : Conforms zlib prompt x z ready At) (hz : z.length ≤ bufferSize)
    {fuel : Nat} (hfuel : x.length + z.length < fuel) : inflate zlib z fuel = some x := by
  obtain ⟨s, hs, hstart⟩ := refill_start hzlib
  obtain ⟨fuel, rfl⟩ : ∃ n, fuel = n + 1 := ⟨fuel - 1, by omega⟩
  obtain ⟨hr, havail⟩ := hstart.refillBlock
  have hsize : bufferSize = 1024 := rfl
  obtain ⟨ret, ws, last, l, hdrain, -, hd⟩ := drain_spec hzlib (fuel + 1) hr (by
    rw [hsize]
    omega)
  have hret : ret = .streamEnd := by
    by_contra hret
    obtain ⟨hin, hlt⟩ := hd.drained hret
    have hzero : (refillBlock z { stream := { state := some s } }).stream.totalIn = 0 := rfl
    rw [havail, hzero] at hin
    change _ = 0 + min bufferSize (z.length - 0) at hin
    omega
  have hend := hd.ended hret
  have htotal := hd.totalOut
  have htext := hd.text
  change _ = 0 + _ at htotal
  change _ = (x.drop 0).take _ at htext
  rw [Nat.zero_add, hend] at htotal
  rw [← htotal, List.drop_zero, List.take_length] at htext
  have hdata : l.data = blocks (List.replicate bufferSize 0) (ws ++ [last]) := hd.data
  have hwhole : ∀ w ∈ ws, w.length = (List.replicate bufferSize (0 : UInt8)).length :=
    fun w hw => (hd.full w hw).trans List.length_replicate.symm
  have hfull := blocks_of_full last hwhole
  rw [htext] at hfull
  have hle : x.length ≤ l.data.length := by
    have hlen := congrArg List.length hfull
    rw [List.length_take] at hlen
    rw [hdata]
    omega
  rw [inflate, hs]
  simp only [refill, hdrain, hret, if_true]
  rw [hend, resize_of_le hle, hdata, hfull]

/-- Of zeros nothing is lost. -/
theorem inflate_of_zero (hzlib : Conforms zlib prompt x z ready At) (hx : ∀ b ∈ x, b = 0)
    {fuel : Nat} (hfuel : x.length + z.length < fuel) : inflate zlib z fuel = some x := by
  obtain ⟨s, hs, hstart⟩ := refill_start hzlib
  have hsize : bufferSize = 1024 := rfl
  obtain ⟨ws, l, hrefill, hws, hdata, hflat, hend⟩ :=
    refill_spec hzlib fuel fuel hstart (by rw [hsize]; omega) (by omega)
  change l.data = blocks (List.replicate bufferSize 0) ws at hdata
  change ws.flatten = x.drop 0 at hflat
  have hlen : ∀ w ∈ ws, w.length ≤ (List.replicate bufferSize (0 : UInt8)).length := by
    rwa [List.length_replicate]
  have hle := length_flatten_le_blocks hlen
  rw [hflat, List.drop_zero] at hle
  have hzero := blocks_take_zero zero_of_mem_replicate hlen (n := x.length) (by
    rw [hflat, List.drop_zero, List.take_length]
    exact hx)
  rw [inflate, hs]
  simp only [hrefill]
  rw [hend, hdata, resize_of_le hle, take_eq_of_zero hzero hx hle]

end Inflate

/-! ## Late text -/

/-- The pace of an inflater that gives nothing away before it has seen the whole stream. -/
def late (x z : List UInt8) (n : Nat) : Nat := if n = z.length then x.length else 0

/-- Over a late inflater, what comes out of a stream that does not fit in the first block of input
begins with a block of zeros, and the text is behind it. -/
theorem inflate_late {x z : List UInt8} (hx : x ≠ []) (hz : bufferSize < z.length) (fuel : Nat)
    (hfuel : x.length + z.length < fuel) :
    ∃ ws, (∀ w ∈ ws, w.length ≤ bufferSize) ∧ ws.flatten = x ∧
      inflate (paced x z (late x z)) z (fuel + 1) = some
        ((List.replicate bufferSize 0 ++ blocks (List.replicate bufferSize 0) ws).take x.length) := by
  have hzlib : Conforms (paced x z (late x z)) True x z (late x z) fun s i o => s = (i, o) :=
    conforms_paced True (by rintro rfl; cases hz) (fun n => by rw [late]; split <;> omega)
      (if_pos rfl)
  have hxpos : 0 < x.length := List.length_pos_iff.2 hx
  have hsize : bufferSize = 1024 := rfl
  -- the first call writes nothing
  let first : Locals (Nat × Nat) := {
    stream := {
      state := some (bufferSize, 0)
      nextIn := bufferSize
      totalIn := bufferSize
      availOut := bufferSize }
    data := List.replicate bufferSize 0 }
  have hinput : (z.take bufferSize).length = bufferSize := by
    rw [List.length_take]
    omega
  have hlate : late x z bufferSize = 0 := if_neg (by omega)
  have hreply : (paced x z (late x z)).inflate (0, 0) (z.take bufferSize) bufferSize =
      { ret := .ok, consumed := bufferSize, written := [], state := (bufferSize, 0) } := by
    simp [paced, hinput, hlate, Nat.ne_of_lt hxpos]
  have hrefill : refillBlock z { stream := { state := some ((0, 0) : Nat × Nat) } } =
      { stream := { state := some (0, 0), availIn := bufferSize } } := by
    simp [refillBlock, Nat.not_lt.2 (Nat.le_of_lt hz)]
  have hcall : inflateBlock (paced x z (late x z)) z
      (refillBlock z { stream := { state := some (0, 0) } }) = (.ok, first) := by
    simp only [hrefill, inflateBlock, ZStream.inflate, List.drop_zero, hreply]
    rfl
  have hreading : Reading x z (fun s i o => s = (i, o)) first :=
    ⟨⟨_, rfl, rfl⟩, rfl, Nat.le_of_lt hz, Nat.zero_le _, List.length_replicate⟩
  obtain ⟨ws, l, hrefill, hws, hdata, hflat, hend⟩ :=
    refill_spec hzlib (fuel + 1) fuel hreading (by rw [hsize]; omega) (by
      change z.length - bufferSize < fuel
      omega)
  change l.data = List.replicate bufferSize 0 ++ blocks (List.replicate bufferSize 0) ws at hdata
  change ws.flatten = x.drop 0 at hflat
  rw [List.drop_zero] at hflat
  refine ⟨ws, hws, hflat, ?_⟩
  have hlen : ∀ w ∈ ws, w.length ≤ (List.replicate bufferSize (0 : UInt8)).length := by
    rwa [List.length_replicate]
  have hle := length_flatten_le_blocks hlen
  rw [hflat] at hle
  have hdrain : drain (paced x z (late x z)) z (fuel + 1)
      (refillBlock z { stream := { state := some (0, 0) } }) = some (.ok, first) := by
    rw [drain, hcall]
    rfl
  have hinit : (paced x z (late x z)).inflateInit = some (0, 0) := rfl
  unfold inflate
  simp only [hinit, refill, hdrain, reduceCtorEq, if_false, hrefill]
  rw [hend, hdata, resize_of_le (by rw [List.length_append]; omega)]

/-- A text that is itself a block later is zero. -/
theorem zero_of_late {x : List UInt8} {ws : List (List UInt8)}
    (hws : ∀ w ∈ ws, w.length ≤ bufferSize) (hflat : ws.flatten = x)
    (h : (List.replicate bufferSize 0 ++ blocks (List.replicate bufferSize 0) ws).take x.length =
      x) : ∀ b ∈ x, b = 0 := by
  have htake : ∀ n, ∀ b ∈ x.take n, b = 0 := by
    intro n
    induction n with
    | zero => simp
    | succ n ih =>
      -- the first `n + 1` bytes come from the block of zeros and from the first `n` bytes
      intro b hb
      rw [← h, List.take_take, List.take_append, List.length_replicate] at hb
      rcases List.mem_append.1 hb with hb | hb
      · exact zero_of_mem_replicate b (List.mem_of_mem_take hb)
      · have hlen : ∀ w ∈ ws, w.length ≤ (List.replicate bufferSize (0 : UInt8)).length := by
          rwa [List.length_replicate]
        have hfirst : ∀ b ∈ ws.flatten.take n, b = 0 := by rwa [hflat]
        apply blocks_take_zero zero_of_mem_replicate hlen hfirst b
        have hsize : bufferSize = 1024 := rfl
        exact List.take_subset_take_left _ (by omega) hb
  intro b hb
  exact htake x.length b (by rwa [List.take_length])

/-- **Round trips.** Compressing and decompressing a text gives the text over every inflater if and
only if the stream has at most 1024 bytes or the text is zero. -/
theorem roundTrips_iff (prompt : Prop) (x z : List UInt8) :
    RoundTrips prompt x z ↔ z.length ≤ 1024 ∨ ∀ b ∈ x, b = 0 := by
  constructor
  · intro h
    by_contra hnot
    rw [not_or, Nat.not_le] at hnot
    obtain ⟨hz, hx⟩ := hnot
    have hne : x ≠ [] := by
      rintro rfl
      simp at hx
    have hzne : z ≠ [] := by
      rintro rfl
      cases hz
    obtain ⟨enough, henough⟩ := h _ (paced x z (late x z)) _ _ (compress2_paced ..)
      (conforms_paced prompt hzne (fun n => by rw [late]; split <;> omega) (if_pos rfl))
    obtain ⟨ws, hws, hflat, hinflate⟩ := inflate_late hne hz
      (enough + x.length + z.length + 1) (by omega)
    have hround := henough (enough + x.length + z.length + 1 + 1) (by omega)
    rw [compress_eq hne (compress2_paced ..), decompress_of_ne_nil _ _ hzne, hinflate,
      Option.some.injEq] at hround
    exact hx (zero_of_late hws hflat hround)
  · intro h σ zlib ready At hcompress hzlib
    refine ⟨x.length + z.length + 1, ?_⟩
    intro fuel hfuel
    by_cases hx : x = []
    · subst hx
      rfl
    · rw [compress_eq hx hcompress, decompress_of_ne_nil _ _ hzlib.nonempty]
      rcases h with hz | hzero
      · exact inflate_of_short hzlib hz (by omega)
      · exact inflate_of_zero hzlib hzero (by omega)

/-- 1100 bytes that do not get shorter. -/
def sampleText : List UInt8 :=
  (List.range 1100).map fun i => UInt8.ofNat ((i * i * 181 + i * i * i / 7) % 251)

/-- What they are compressed to: the header, one stored block, and the Adler-32 checksum. -/
def sampleStream : List UInt8 :=
  [0x78, 0xDA, 0x01, 0x4C, 0x04, 0xB3, 0xFB] ++ sampleText ++ [0xD9, 0xB8, 0x11, 0xF5]

/-- A stored block gives its text away byte by byte, behind seven bytes of headers. -/
def sampleReady (n : Nat) : Nat := min (n - 7) 1100

/-- The first block of input ends 83 bytes before the text does: seven zeros come in between. -/
theorem stored_text_not_round_trip :
    let zlib := paced sampleText sampleStream sampleReady
    Conforms zlib True sampleText sampleStream sampleReady (fun s i o => s = (i, o)) ∧
      (decompress zlib 2 (compress zlib sampleText)).map (fun y => (y.drop 1016).take 9) =
        some [sampleText.getD 1016 0, 0, 0, 0, 0, 0, 0, 0, sampleText.getD 1017 0] ∧
      ¬ RoundTrips True sampleText sampleStream := by
  have htext : sampleText.length = 1100 := by simp [sampleText]
  have hstream : sampleStream.length = 1111 := by simp [sampleStream, htext]
  have hx : sampleText ≠ [] := List.ne_nil_of_length_pos (by omega)
  have hz : sampleStream ≠ [] := List.ne_nil_of_length_pos (by omega)
  have hzlib : Conforms (paced sampleText sampleStream sampleReady) True sampleText sampleStream
      sampleReady (fun s i o => s = (i, o)) :=
    conforms_paced True hz (fun n => by rw [sampleReady, htext]; omega)
      (by simp [sampleReady, hstream, htext])
  have hgarbled : (inflate (paced sampleText sampleStream sampleReady) sampleStream 2).map
      (fun y => (y.drop 1016).take 9) =
        some [sampleText.getD 1016 0, 0, 0, 0, 0, 0, 0, 0, sampleText.getD 1017 0] := by
    decide +kernel
  refine ⟨hzlib, ?_, ?_⟩
  · rw [compress_eq hx (compress2_paced ..), decompress_of_ne_nil _ _ hz]
    exact hgarbled
  · intro h
    obtain ⟨y, hinflate, hy⟩ := Option.map_eq_some_iff.1 hgarbled
    obtain ⟨enough, henough⟩ := h _ _ _ _ (compress2_paced ..) hzlib
    have hround := henough (2 + enough) (Nat.le_add_left _ _)
    rw [compress_eq hx (compress2_paced ..), decompress_of_ne_nil _ _ hz, inflate_add hinflate,
      Option.some.injEq] at hround
    rw [hround] at hy
    exact absurd hy (by decide +kernel)

end Zip

end KeycapRoot.Compression
