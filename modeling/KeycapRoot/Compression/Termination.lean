import KeycapRoot.Compression.Zip

/-!
# When inflating ends

The outer loop of `impl::inflate` has one way out, the end of the stream. On an error the stream is
released, and from then on zlib answers with the same error forever; of a stream that is cut off it
waits for input that does not come. So the loops end exactly if the data begins with a whole stream
(`inflate_terminates_iff`).
-/

namespace KeycapRoot.Compression.Zip

variable {σ : Type} {zlib : Zlib σ} {IsStream : List UInt8 → Prop} {ratio : Nat}
  {At : σ → List UInt8 → Nat → Prop} {z : List UInt8} {l l' : Locals σ} {ret : Status}

/-- The stream is where the counters say. -/
structure Tracks (z : List UInt8) (At : σ → List UInt8 → Nat → Prop) (l : Locals σ) : Prop where
  state : ∃ s, l.stream.state = some s ∧ At s (z.take l.stream.totalIn) l.stream.totalOut
  nextIn : l.stream.nextIn = l.stream.totalIn
  input : l.stream.totalIn + l.stream.availIn ≤ z.length

/-- What a call in the inner loop did. -/
structure Called (IsStream : List UInt8 → Prop) (z : List UInt8) (At : σ → List UInt8 → Nat → Prop)
    (l : Locals σ) (ret : Status) (l' : Locals σ) : Prop where
  end_iff : ret = .streamEnd ↔ IsStream (z.take l'.stream.totalIn)
  stops : ∀ e, l.stream.totalIn ≤ e → e < l'.stream.totalIn → ¬ IsStream (z.take e)
  input : l'.stream.totalIn + l'.stream.availIn = l.stream.totalIn + l.stream.availIn
  totalIn : l.stream.totalIn ≤ l'.stream.totalIn
  totalOut : l'.stream.totalOut + l'.stream.availOut = l.stream.totalOut + bufferSize
  totalOut_le : l.stream.totalOut ≤ l'.stream.totalOut
  progress : ret = .ok →
    l.stream.totalIn + l.stream.totalOut < l'.stream.totalIn + l'.stream.totalOut
  starved : ret = .bufError → l.stream.availIn = 0
  rejects : ret.isError = true → ∀ e, ¬ IsStream (z.take e)
  tracks : ret.isError = false → Tracks z At l'
  released : ret.isError = true → l'.stream.state = none

theorem inflateBlock_called (hzlib : Discerns zlib IsStream ratio At) (h : Tracks z At l) :
    ∃ ret l', inflateBlock zlib z l = (ret, l') ∧ Called IsStream z At l ret l' := by
  obtain ⟨s, hs, hat⟩ := h.state
  have hinput := h.input
  have hverdict := hzlib.verdict s _ _ hat ((z.drop l.stream.totalIn).take l.stream.availIn)
    bufferSize (by decide)
  have hnext := hzlib.next s _ _ hat ((z.drop l.stream.totalIn).take l.stream.availIn)
    bufferSize (by decide)
  have hlen : ((z.drop l.stream.totalIn).take l.stream.availIn).length = l.stream.availIn := by
    rw [List.length_take, List.length_drop]
    omega
  generalize hr : zlib.inflate s ((z.drop l.stream.totalIn).take l.stream.availIn) bufferSize = r
    at hverdict hnext
  have hconsumed := hverdict.consumed_le
  have hwritten := hverdict.written_le
  rw [hlen] at hconsumed
  -- the bytes seen are a prefix of the data
  have hseen : ∀ k, k ≤ l.stream.availIn → z.take l.stream.totalIn ++
      ((z.drop l.stream.totalIn).take l.stream.availIn).take k =
        z.take (l.stream.totalIn + k) := by
    intro k hk
    rw [List.take_take, Nat.min_eq_left hk, ← List.take_add]
  have hall : z.take l.stream.totalIn ++ (z.drop l.stream.totalIn).take l.stream.availIn ++
      z.drop (l.stream.totalIn + l.stream.availIn) = z := by
    rw [← List.take_add, List.take_append_drop]
  have hcall : inflateBlock zlib z l = (r.ret, l.after r) := by
    rw [inflateBlock_eq hs h.nextIn, hr]
  refine ⟨r.ret, l.after r, hcall, ?_⟩
  constructor
  · have hend := hverdict.end_iff
    rw [hseen _ hconsumed] at hend
    exact hend
  · intro e hle hlt hstream
    change e < l.stream.totalIn + r.consumed at hlt
    apply hverdict.stops (e - l.stream.totalIn) (by omega)
    rw [hseen _ (by omega), Nat.add_sub_of_le hle]
    exact hstream
  · change l.stream.totalIn + r.consumed + (l.stream.availIn - r.consumed) = _
    omega
  · exact Nat.le_add_right _ _
  · change l.stream.totalOut + r.written.length + (bufferSize - r.written.length) = _
    omega
  · exact Nat.le_add_right _ _
  · intro hret
    have hprogress := hverdict.progress hret
    change _ < l.stream.totalIn + r.consumed + (l.stream.totalOut + r.written.length)
    omega
  · intro hret
    rw [← hlen, (hverdict.starved hret).1, List.length_nil]
  · intro hret e
    have hrejects := hverdict.rejects hret (z.drop (l.stream.totalIn + l.stream.availIn)) e
    rwa [hall] at hrejects
  · intro hret
    refine ⟨⟨r.state, ?_, ?_⟩, congrArg (· + r.consumed) h.nextIn, ?_⟩
    · exact if_neg (by rw [hret]; decide)
    · have hat' := hnext hret
      rwa [hseen _ hconsumed] at hat'
    · change l.stream.totalIn + r.consumed + (l.stream.availIn - r.consumed) ≤ z.length
      omega
  · intro hret
    exact if_pos hret

theorem Tracks.refillBlock (h : Tracks z At l) : Tracks z At (refillBlock z l) := by
  have hinput := h.input
  refine ⟨h.state, rfl, ?_⟩
  change l.stream.totalIn + (if _ then _ else _) ≤ z.length
  split <;> omega

/-! ## Without a stream -/

/-- The stream is released, or still reads. -/
def Doomed (z : List UInt8) (At : σ → List UInt8 → Nat → Prop) (l : Locals σ) : Prop :=
  l.stream.state = none ∨ Tracks z At l

theorem inflateBlock_doomed (hzlib : Discerns zlib IsStream ratio At)
    (hno : ∀ e, ¬ IsStream (z.take e)) (h : Doomed z At l)
    (hcall : inflateBlock zlib z l = (ret, l')) : ret ≠ .streamEnd ∧ Doomed z At l' := by
  rcases h with hreleased | htracks
  · simp only [inflateBlock, ZStream.inflate, hreleased] at hcall
    cases hcall
    exact ⟨by decide, Or.inl rfl⟩
  · obtain ⟨ret', l'', hcall', hcalled⟩ := inflateBlock_called hzlib htracks
    cases hcall'.symm.trans hcall
    refine ⟨fun hret => hno _ (hcalled.end_iff.1 hret), ?_⟩
    cases herr : ret.isError with
    | false => exact Or.inr (hcalled.tracks herr)
    | true => exact Or.inl (hcalled.released herr)

theorem drain_doomed (hzlib : Discerns zlib IsStream ratio At) (hno : ∀ e, ¬ IsStream (z.take e))
    {fuel : Nat} (h : Doomed z At l) (hdrain : drain zlib z fuel l = some (ret, l')) :
    ret ≠ .streamEnd ∧ Doomed z At l' := by
  induction fuel generalizing l with
  | zero => cases hdrain
  | succ fuel ih =>
    cases hcall : inflateBlock zlib z l with
    | mk ret₁ l₁ =>
      obtain ⟨hret₁, h₁⟩ := inflateBlock_doomed hzlib hno h hcall
      rw [drain, hcall] at hdrain
      simp only at hdrain
      split at hdrain
      · exact ih h₁ hdrain
      · cases hdrain
        exact ⟨hret₁, h₁⟩

/-- Data that does not begin with a stream is inflated forever. -/
theorem refill_doomed (hzlib : Discerns zlib IsStream ratio At)
    (hno : ∀ e, ¬ IsStream (z.take e)) (inner fuel : Nat) (h : Doomed z At l) :
    refill zlib z inner fuel l = none := by
  induction fuel generalizing l with
  | zero => rfl
  | succ fuel ih =>
    have hrefill : Doomed z At (refillBlock z l) := h.imp id Tracks.refillBlock
    rw [refill]
    cases hdrain : drain zlib z inner (refillBlock z l) with
    | none => rfl
    | some r =>
      obtain ⟨ret, l'⟩ := r
      obtain ⟨hret, h'⟩ := drain_doomed hzlib hno hrefill hdrain
      simp only [if_neg hret]
      exact ih h'

/-! ## With a stream -/

theorem Tracks.totalOut_le (hzlib : Discerns zlib IsStream ratio At) (h : Tracks z At l) :
    l.stream.totalOut ≤ ratio * z.length := by
  obtain ⟨s, -, hat⟩ := h.state
  exact Nat.le_trans (hzlib.expands s _ _ hat)
    (Nat.mul_le_mul_left _ (List.length_take_le' _ _))

/-- What a run of the inner loop did, when the data begins with a stream of `e` bytes. -/
structure Returned (IsStream : List UInt8 → Prop) (z : List UInt8)
    (At : σ → List UInt8 → Nat → Prop) (e : Nat) (l : Locals σ) (ret : Status) (l' : Locals σ) :
    Prop where
  tracks : Tracks z At l'
  before : l'.stream.totalIn ≤ e
  end_iff : ret = .streamEnd ↔ IsStream (z.take l'.stream.totalIn)
  input : l'.stream.totalIn + l'.stream.availIn = l.stream.totalIn + l.stream.availIn
  totalIn : l.stream.totalIn ≤ l'.stream.totalIn
  totalOut : l.stream.totalOut ≤ l'.stream.totalOut
  progress : ret ≠ .streamEnd → l.stream.availIn ≠ 0 →
    l.stream.totalIn + l.stream.totalOut < l'.stream.totalIn + l'.stream.totalOut

/-- A call before the end of the stream is no error, and does not go past that end. -/
theorem Called.returned {e : Nat} (hcalled : Called IsStream z At l ret l')
    (he : IsStream (z.take e)) (hle : l.stream.totalIn ≤ e) :
    Returned IsStream z At e l ret l' := by
  have hnoerror : ret.isError = false :=
    Bool.eq_false_iff.2 fun hret => hcalled.rejects hret e he
  constructor
  · exact hcalled.tracks hnoerror
  · exact Nat.le_of_not_lt fun hlt => hcalled.stops e hle hlt he
  · exact hcalled.end_iff
  · exact hcalled.input
  · exact hcalled.totalIn
  · exact hcalled.totalOut_le
  · intro hret havail
    apply hcalled.progress
    cases ret with
    | ok => rfl
    | streamEnd => exact absurd rfl hret
    | bufError => exact absurd (hcalled.starved rfl) havail
    | needDict => cases hnoerror
    | streamError => cases hnoerror
    | dataError => cases hnoerror
    | memError => cases hnoerror

theorem drain_returns (hzlib : Discerns zlib IsStream ratio At) {e : Nat}
    (he : IsStream (z.take e)) (fuel : Nat) (h : Tracks z At l) (hle : l.stream.totalIn ≤ e)
    (hfuel : ratio * z.length - l.stream.totalOut < bufferSize * fuel) :
    ∃ ret l', drain zlib z fuel l = some (ret, l') ∧ Returned IsStream z At e l ret l' := by
  induction fuel generalizing l with
  | zero => omega
  | succ fuel ih =>
    obtain ⟨ret, l₁, hcall, hcalled⟩ := inflateBlock_called hzlib h
    have hreturned := hcalled.returned he hle
    rw [drain, hcall]
    by_cases hfull : l₁.stream.availOut = 0
    · -- a full block of output, which there is not more of than the ratio allows
      have hout := hcalled.totalOut
      have hbound := hreturned.tracks.totalOut_le hzlib
      have hsize : bufferSize = 1024 := rfl
      obtain ⟨ret', l', hdrain, hrest⟩ := ih hreturned.tracks hreturned.before (by
        rw [Nat.mul_succ] at hfuel
        omega)
      refine ⟨ret', l', (if_pos hfull).trans hdrain, ?_⟩
      have hin := hreturned.totalIn
      have hin' := hrest.totalIn
      have hout' := hrest.totalOut
      constructor
      · exact hrest.tracks
      · exact hrest.before
      · exact hrest.end_iff
      · exact hrest.input.trans hreturned.input
      · exact Nat.le_trans hin hin'
      · omega
      · intro _ _
        omega
    · exact ⟨ret, l₁, if_neg hfull, hreturned⟩

theorem availIn_refillBlock (h : l.stream.totalIn < z.length) :
    (refillBlock z l).stream.availIn ≠ 0 := by
  have hsize : bufferSize = 1024 := rfl
  change (if _ then _ else _) ≠ 0
  split <;> omega

/-- Every round of the outer loop consumes or writes something, until the stream ends. -/
theorem refill_returns (hzlib : Discerns zlib IsStream ratio At) {e : Nat}
    (he : IsStream (z.take e)) (inner fuel : Nat) (h : Tracks z At l)
    (hle : l.stream.totalIn ≤ e) (hinner : ratio * z.length < bufferSize * inner)
    (hfuel : z.length + ratio * z.length < l.stream.totalIn + l.stream.totalOut + fuel) :
    ∃ l', refill zlib z inner fuel l = some l' := by
  induction fuel generalizing l with
  | zero =>
    have hin := h.input
    have hout := h.totalOut_le hzlib
    omega
  | succ fuel ih =>
    obtain ⟨ret, l₁, hdrain, hreturned⟩ := drain_returns hzlib he inner h.refillBlock hle
      (Nat.lt_of_le_of_lt (Nat.sub_le _ _) hinner)
    rw [refill, hdrain]
    by_cases hret : ret = .streamEnd
    · exact ⟨l₁, if_pos hret⟩
    · simp only [if_neg hret]
      have hin : (refillBlock z l).stream.totalIn = l.stream.totalIn := rfl
      have hout : (refillBlock z l).stream.totalOut = l.stream.totalOut := rfl
      have hmore : l.stream.totalIn < z.length := by
        by_contra hend
        -- all is consumed, so the stream is
        apply hret
        have hall : z.take l₁.stream.totalIn = z.take e := by
          have hbefore := hreturned.before
          have hsame := hreturned.totalIn
          rw [List.take_of_length_le (by omega), List.take_of_length_le (by omega)]
        rw [hreturned.end_iff, hall]
        exact he
      have hprogress := hreturned.progress hret (availIn_refillBlock hmore)
      exact ih hreturned.tracks hreturned.before (by omega)

/-! ## Termination -/

/-- `impl::inflate` returns. -/
def Terminates (zlib : Zlib σ) (z : List UInt8) : Prop := ∃ fuel, (inflate zlib z fuel).isSome

theorem tracks_start (hzlib : Discerns zlib IsStream ratio At) {s : σ}
    (hs : zlib.inflateInit = some s) : Tracks z At { stream := { state := some s } } :=
  ⟨⟨s, rfl, by rw [List.take_zero]; exact hzlib.init s hs⟩, rfl, Nat.zero_le _⟩

theorem not_terminates (hzlib : Discerns zlib IsStream ratio At) {s : σ}
    (hs : zlib.inflateInit = some s) (hno : ∀ e, ¬ IsStream (z.take e)) : ¬ Terminates zlib z := by
  rintro ⟨fuel, hsome⟩
  have hforever := refill_doomed hzlib hno fuel fuel (Or.inr (tracks_start hzlib hs))
  rw [inflate, hs] at hsome
  simp [hforever] at hsome

theorem terminates_of_none (hinit : zlib.inflateInit = none) : Terminates zlib z :=
  ⟨0, by rw [inflate, hinit]; rfl⟩

theorem terminates_of_stream (hzlib : Discerns zlib IsStream ratio At) {e : Nat}
    (he : IsStream (z.take e)) : Terminates zlib z := by
  cases hinit : zlib.inflateInit with
  | none => exact terminates_of_none hinit
  | some s =>
    obtain ⟨fuel, hfuel⟩ : ∃ fuel, fuel = z.length + ratio * z.length + 1 := ⟨_, rfl⟩
    have hinner : ratio * z.length < bufferSize * fuel := by
      change _ < 1024 * fuel
      omega
    have houter : z.length + ratio * z.length < 0 + 0 + fuel := by omega
    obtain ⟨l, hrefill⟩ := refill_returns hzlib he fuel fuel (tracks_start hzlib hinit)
      (Nat.zero_le e) hinner houter
    refine ⟨fuel, ?_⟩
    rw [inflate, hinit]
    simp [hrefill]

/-- **Termination.** Inflating ends if and only if there is no memory for it or the data begins
with a whole stream. -/
theorem inflate_terminates_iff (hzlib : Discerns zlib IsStream ratio At) (z : List UInt8) :
    Terminates zlib z ↔ zlib.inflateInit = none ∨ ∃ e, IsStream (z.take e) := by
  constructor
  · intro h
    by_contra hnot
    rw [not_or, not_exists] at hnot
    obtain ⟨s, hs⟩ := Option.ne_none_iff_exists'.1 hnot.1
    exact not_terminates hzlib hs hnot.2 h
  · rintro (hinit | ⟨e, he⟩)
    · exact terminates_of_none hinit
    · exact terminates_of_stream hzlib he

/-- The zlib stream of the empty text. -/
def emptyStream : List UInt8 := [0x78, 0xDA, 0x03, 0x00, 0x00, 0x00, 0x00, 0x01]

theorem inflate_terminates_iff_sample :
    Terminates (matching emptyStream) (emptyStream ++ [7]) ∧
      ¬ Terminates (matching emptyStream) [0x78, 0xDA, 0x07, 0x00] := by
  have hzlib := discerns_matching emptyStream
  refine ⟨(inflate_terminates_iff hzlib _).2 (Or.inr ⟨8, by decide⟩), ?_⟩
  intro h
  rcases (inflate_terminates_iff hzlib _).1 h with hinit | ⟨e, he⟩
  · cases hinit
  · have hlen := congrArg List.length he
    rw [List.length_take] at hlen
    exact absurd (Nat.le_of_eq hlen.symm) (Nat.not_le.2
      (Nat.lt_of_le_of_lt (Nat.min_le_right _ _) (by decide)))

/-- Without the last byte of its checksum, the stream of the empty text is inflated forever. -/
theorem truncated_not_terminates :
    Discerns (matching emptyStream) (· = emptyStream) 0
        (fun i seen o => seen = emptyStream.take i ∧ i ≤ emptyStream.length ∧ o = 0) ∧
      ¬ Terminates (matching emptyStream) (emptyStream.take 7) := by
  refine ⟨discerns_matching emptyStream, not_terminates (discerns_matching emptyStream) rfl ?_⟩
  intro e he
  have hlen := congrArg List.length he
  rw [List.take_take, List.length_take] at hlen
  have hwhole : emptyStream.length = 8 := rfl
  omega

end KeycapRoot.Compression.Zip
