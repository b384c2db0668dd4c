import Mathlib.Tactic.Common

/-!
# zlib

zlib is not part of this repository. A `Zlib` stands for the four functions of it that are called,
with `σ` for the state behind a `z_stream`. `Conforms` is what they promise of a text and a stream
it is compressed to; it leaves open how much of the text an inflater gives away before it has seen
the whole stream. `paced` is an inflater that gives it away at any given pace. `Discerns` is what
zlib promises of arbitrary bytes, cut or damaged ones included.
-/

namespace KeycapRoot.Compression

/-- The return values of zlib. -/
inductive Status
  | ok
  | streamEnd
  | needDict
  | streamError
  | dataError
  | memError
  | bufError
  deriving DecidableEq, Repr

/-- An error, after which there is no use in going on. -/
def Status.isError : Status → Bool
  | .needDict | .streamError | .dataError | .memError => true
  | .ok | .streamEnd | .bufError => false

/-- What a call of `inflate` does: the number of bytes it consumes and the bytes it writes. -/
structure Inflated (σ : Type) where
  ret : Status
  consumed : Nat
  written : List UInt8
  state : σ

structure Zlib (σ : Type) where
  compressBound : Nat → Nat
  /-- The stream for a source and a level, if it succeeds and the stream fits the capacity. -/
  compress2 : List UInt8 → Nat → Nat → Option (List UInt8)
  /-- A new state, if there is memory for one. -/
  inflateInit : Option σ
  /-- One call, given the input and the room for output. -/
  inflate : σ → List UInt8 → Nat → Inflated σ

/-- One call of `inflate` on the stream `z` of the text `x`, of which `i` and `o` bytes have been
consumed and written before, with `input` bytes of it and room for `room` bytes. `ready n` bytes
of the text can be told from the first `n` bytes of the stream. -/
structure Reply {σ : Type} (prompt : Prop) (x z : List UInt8) (ready : Nat → Nat)
    (i o input room : Nat) (r : Inflated σ) : Prop where
  consumed_le : r.consumed ≤ input
  written_le : r.written.length ≤ room
  written_eq : r.written = (x.drop o).take r.written.length
  /-- Output stays pending only if the room is used up. -/
  pending : o + r.written.length < ready (i + r.consumed) → r.written.length = room
  /-- A call ends when the input or the room is used up, or with the stream. -/
  stops : r.consumed = input ∨ r.written.length = room ∨ r.ret = .streamEnd
  end_only : r.ret = .streamEnd → o + r.written.length = x.length
  /-- `prompt` is whether the end is reported as soon as the text is written, or not before the
  stream is consumed as well. -/
  end_once : o + r.written.length = x.length → prompt ∨ i + r.consumed = z.length →
    r.ret = .streamEnd
  no_error : r.ret = .ok ∨ r.ret = .bufError ∨ r.ret = .streamEnd

/-- The inflater takes the stream `z` for the text `x`, from any state that it can be in after `i`
and `o` bytes. -/
structure Conforms {σ : Type} (zlib : Zlib σ) (prompt : Prop) (x z : List UInt8)
    (ready : Nat → Nat) (At : σ → Nat → Nat → Prop) : Prop where
  nonempty : z ≠ []
  ready_end : ready z.length = x.length
  init : ∃ s, zlib.inflateInit = some s ∧ At s 0 0
  reply : ∀ s i o, At s i o → ∀ n room, 0 < room →
    Reply prompt x z ready i o ((z.drop i).take n).length room
      (zlib.inflate s ((z.drop i).take n) room)
  next : ∀ s i o, At s i o → ∀ n room, 0 < room →
    let r := zlib.inflate s ((z.drop i).take n) room
    At r.state (i + r.consumed) (o + r.written.length)

/-! ## Inflaters at any pace -/

/-- An inflater for the text `x`: it consumes all that it is given, and after `i` bytes it has given
away `ready i` bytes of the text, as far as there was room. Its state counts both. -/
def paced (x z : List UInt8) (ready : Nat → Nat) : Zlib (Nat × Nat) where
  compressBound n := n + z.length
  compress2 source _ _ := if source = x then some z else none
  inflateInit := some (0, 0)
  inflate := fun (i, o) input room =>
    let i := i + input.length
    let written := (x.drop o).take (min room (ready i - o))
    { ret := if o + written.length = x.length then .streamEnd else .ok
      consumed := input.length
      written
      state := (i, o + written.length) }

theorem compress2_paced (x z : List UInt8) (ready : Nat → Nat) (level capacity : Nat) :
    (paced x z ready).compress2 x level capacity = some z := if_pos rfl

theorem conforms_paced (prompt : Prop) {x z : List UInt8} {ready : Nat → Nat} (hz : z ≠ [])
    (hready : ∀ n, ready n ≤ x.length) (hend : ready z.length = x.length) :
    Conforms (paced x z ready) prompt x z ready fun s i o => s = (i, o) := by
  refine ⟨hz, hend, ⟨_, rfl, rfl⟩, ?_, ?_⟩
  · rintro s i o rfl n room hroom
    generalize (z.drop i).take n = input
    have hle := hready (i + input.length)
    have hlen : ((x.drop o).take (min room (ready (i + input.length) - o))).length =
        min room (ready (i + input.length) - o) := by
      rw [List.length_take, List.length_drop]
      omega
    constructor
    · exact Nat.le_refl _
    · change (List.take _ _).length ≤ room
      omega
    · change List.take _ _ = List.take (List.take _ _).length _
      rw [hlen]
    · intro hpending
      change o + (List.take _ _).length < ready (i + input.length) at hpending
      change (List.take _ _).length = room
      omega
    · exact Or.inl rfl
    · intro hret
      change (if _ then Status.streamEnd else Status.ok) = _ at hret
      split at hret
      · assumption
      · cases hret
    · intro hall _
      exact if_pos hall
    · change (if _ then Status.streamEnd else Status.ok) = _ ∨ _
      split
      · exact Or.inr (Or.inr (if_pos ‹_›))
      · exact Or.inl rfl
  · rintro s i o rfl n room hroom
    rfl

/-! ## Arbitrary data -/

/-- One call of `inflate` after the bytes `seen` have been consumed, with `input` behind them. -/
structure Verdict {σ : Type} (IsStream : List UInt8 → Prop) (seen input : List UInt8) (room : Nat)
    (r : Inflated σ) : Prop where
  consumed_le : r.consumed ≤ input.length
  written_le : r.written.length ≤ room
  /-- The end is reported with the last byte of a stream. -/
  end_iff : r.ret = .streamEnd ↔ IsStream (seen ++ input.take r.consumed)
  /-- Nothing is consumed behind a stream. -/
  stops : ∀ k < r.consumed, ¬ IsStream (seen ++ input.take k)
  progress : r.ret = .ok → 0 < r.consumed + r.written.length
  /-- Only without input is there nothing to be done. -/
  starved : r.ret = .bufError → input = [] ∧ r.written = []
  /-- What is called an error is not the beginning of a stream, whatever follows. -/
  rejects : r.ret.isError = true → ∀ more e, ¬ IsStream ((seen ++ input ++ more).take e)

/-- The inflater tells the streams from everything else, and no stream becomes more than `ratio`
times as long. `At` are the states that it can be in after some bytes in and out. -/
structure Discerns {σ : Type} (zlib : Zlib σ) (IsStream : List UInt8 → Prop) (ratio : Nat)
    (At : σ → List UInt8 → Nat → Prop) : Prop where
  init : ∀ s, zlib.inflateInit = some s → At s [] 0
  expands : ∀ s seen o, At s seen o → o ≤ ratio * seen.length
  verdict : ∀ s seen o, At s seen o → ∀ input room, 0 < room →
    Verdict IsStream seen input room (zlib.inflate s input room)
  next : ∀ s seen o, At s seen o → ∀ input room, 0 < room →
    let r := zlib.inflate s input room
    r.ret.isError = false → At r.state (seen ++ input.take r.consumed) (o + r.written.length)

/-- The number of bytes that two lists have in common at their front. -/
def common : List UInt8 → List UInt8 → Nat
  | a :: as, b :: bs => if a = b then common as bs + 1 else 0
  | _, _ => 0

theorem common_le_left (as bs : List UInt8) : common as bs ≤ as.length := by
  induction as generalizing bs with
  | nil => exact Nat.le_refl _
  | cons a as ih =>
    cases bs with
    | nil => exact Nat.zero_le _
    | cons b bs =>
      rw [common]
      split
      · exact Nat.succ_le_succ (ih bs)
      · exact Nat.zero_le _

theorem common_comm (as bs : List UInt8) : common as bs = common bs as := by
  induction as generalizing bs with
  | nil => cases bs <;> rfl
  | cons a as ih =>
    cases bs with
    | nil => rfl
    | cons b bs => simp only [common, ih, eq_comm]

theorem common_le_right (as bs : List UInt8) : common as bs ≤ bs.length := by
  rw [common_comm]
  exact common_le_left bs as

theorem take_common (as bs : List UInt8) : as.take (common as bs) = bs.take (common as bs) := by
  induction as generalizing bs with
  | nil => simp [common]
  | cons a as ih =>
    cases bs with
    | nil => simp [common]
    | cons b bs =>
      rw [common]
      split
      · rename_i hab
        rw [hab, List.take_succ_cons, List.take_succ_cons, ih bs]
      · rfl

/-- The bytes behind the common front differ. -/
theorem getElem?_common_ne {as bs : List UInt8} (ha : common as bs < as.length)
    (hb : common as bs < bs.length) : as[common as bs]? ≠ bs[common as bs]? := by
  induction as generalizing bs with
  | nil => exact absurd ha (Nat.not_lt_zero _)
  | cons a as ih =>
    cases bs with
    | nil => exact absurd hb (Nat.not_lt_zero _)
    | cons b bs =>
      rw [common] at ha hb ⊢
      split at ha
      · rename_i hab
        rw [if_pos hab] at hb ⊢
        rw [List.getElem?_cons_succ, List.getElem?_cons_succ]
        exact ih (Nat.lt_of_succ_lt_succ ha) (Nat.lt_of_succ_lt_succ hb)
      · rename_i hab
        rw [if_neg hab]
        simpa using hab

/-- An inflater that knows one stream, of the empty text. Its state counts the bytes that were
right. -/
def matching (whole : List UInt8) : Zlib Nat where
  compressBound n := n + whole.length
  compress2 source _ _ := if source = [] then some whole else none
  inflateInit := some 0
  inflate := fun i input _ =>
    let consumed := common input (whole.drop i)
    { ret :=
        if i + consumed = whole.length then .streamEnd
        else if consumed < input.length then .dataError
        else if input = [] then .bufError
        else .ok
      consumed
      written := []
      state := i + consumed }

section Matching

variable {whole : List UInt8} {i : Nat} {input : List UInt8} {room : Nat}

theorem take_append_common :
    whole.take i ++ input.take (common input (whole.drop i)) =
      whole.take (i + common input (whole.drop i)) := by
  rw [take_common, List.take_add]

theorem verdict_matching (hi : i ≤ whole.length) :
    Verdict (· = whole) (whole.take i) input room ((matching whole).inflate i input room) := by
  have hright := common_le_right input (whole.drop i)
  rw [List.length_drop] at hright
  -- a prefix of the stream is the stream if it is as long
  have hwhole : ∀ n, n ≤ whole.length → (whole.take n = whole ↔ n = whole.length) := by
    intro n hn
    constructor
    · intro htake
      have hlen := congrArg List.length htake
      rw [List.length_take] at hlen
      omega
    · rintro rfl
      exact List.take_length
  constructor
  · exact common_le_left _ _
  · exact Nat.zero_le _
  · change (if _ then Status.streamEnd else _) = _ ↔ _ ++ input.take (common _ _) = whole
    rw [take_append_common, hwhole _ (by omega)]
    split
    · simp [*]
    · rename_i hmore
      refine ⟨?_, fun hend => absurd hend hmore⟩
      intro hret
      split at hret
      · cases hret
      · split at hret <;> cases hret
  · intro k hk
    change k < common _ _ at hk
    have htake : input.take k = (whole.drop i).take k := by
      have hcommon := congrArg (List.take k) (take_common input (whole.drop i))
      rwa [List.take_take, List.take_take, Nat.min_eq_left (Nat.le_of_lt hk)] at hcommon
    rw [htake, ← List.take_add, hwhole _ (by omega)]
    omega
  · intro hret
    change (if _ then Status.streamEnd else if _ then Status.dataError else _) = _ at hret
    split at hret
    · cases hret
    · split at hret
      · cases hret
      · split at hret
        · cases hret
        · rename_i hall hne
          have hpos := List.length_pos_iff.2 hne
          change 0 < common _ _ + 0
          omega
  · intro hret
    change (if _ then Status.streamEnd else if _ then Status.dataError else _) = _ at hret
    split at hret
    · cases hret
    · split at hret
      · cases hret
      · split at hret
        · exact ⟨‹_›, rfl⟩
        · cases hret
  · intro hret more e hstream
    change (if _ then Status.streamEnd else if _ then Status.dataError else _).isError = _ at hret
    split at hret
    · cases hret
    · split at hret
      · -- the first byte that is wrong is a byte of the stream
        rename_i hmore hless
        have hlt : common input (whole.drop i) < (whole.drop i).length := by
          rw [List.length_drop]
          omega
        have hbyte : ∀ n < input.length, i + n < e → whole[i + n]? = input[n]? := by
          intro n hn hpos
          have hlength : (whole.take i).length = i := List.length_take_of_le hi
          calc whole[i + n]? = ((whole.take i ++ input ++ more).take e)[i + n]? := by rw [hstream]
            _ = (whole.take i ++ (input ++ more))[i + n]? := by
              rw [List.getElem?_take_of_lt hpos, List.append_assoc]
            _ = (input ++ more)[n]? := by
              rw [List.getElem?_append_right (by omega), hlength, Nat.add_sub_cancel_left]
            _ = input[n]? := List.getElem?_append_left hn
        have hpos : i + common input (whole.drop i) < e := by
          by_contra hle
          have hlen := congrArg List.length hstream
          rw [List.length_take] at hlen
          omega
        apply getElem?_common_ne hless hlt
        rw [List.getElem?_drop, hbyte _ hless hpos]
      · split at hret <;> cases hret

theorem discerns_matching (whole : List UInt8) :
    Discerns (matching whole) (· = whole) 0 fun i seen o =>
      seen = whole.take i ∧ i ≤ whole.length ∧ o = 0 := by
  constructor
  · rintro s hs
    cases hs
    exact ⟨List.take_zero.symm, Nat.zero_le _, rfl⟩
  · rintro i seen o ⟨-, -, rfl⟩
    exact Nat.zero_le _
  · rintro i seen o ⟨rfl, hi, -⟩ input room hroom
    exact verdict_matching hi
  · rintro i seen o ⟨rfl, hi, rfl⟩ input room hroom r hret
    have hright := common_le_right input (whole.drop i)
    rw [List.length_drop] at hright
    refine ⟨take_append_common, ?_, rfl⟩
    change i + common input (whole.drop i) ≤ whole.length
    omega

end Matching

end KeycapRoot.Compression
