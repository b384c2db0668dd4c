import KeycapRoot.Compression.Zip
import KeycapRoot.Network.MemoryStream

/-!
# Decompressing in place

`memory_stream::decompress` replaces a compressed segment at the read position by its text, but it
moves nothing: the text is written over the segment and whatever comes behind it, and the buffer
grows only if the text reaches its end (`decompress_eq`). That is a replacement exactly if segment
and text have the same size, or if nothing follows the segment and the text is at least as long
(`decompresses_iff`).
-/

namespace KeycapRoot.Network.MemoryStream

open KeycapRoot.Compression

variable {σ : Type}

/-- `decompress(length)`. There is no result when `impl::decompress` has none within the fuel. -/
def decompress (zlib : Zlib σ) (fuel : Nat) (beyond : Beyond) (s : MemoryStream) (length : UInt32) :
    Option (Outcome MemoryStream Nat) :=
  if length = 0 then some (.ok 0 s)
  else
    match s.load beyond s.readPosition length.toNat with
    | none => some (.error .undefined s)
    | some range =>
      match Zip.decompress zlib fuel range with
      | none => none
      | some buffer =>
        let newSize := s.readPosition + buffer.length
        let currentSize := s.buffer.length
        let t := if newSize > currentSize then { s with buffer := Zip.resize s.buffer newSize } else s
        match t.store t.readPosition buffer with
        | some t => some (.ok buffer.length t)
        | none => some (.error .undefined t)

variable {zlib : Zlib σ} {fuel : Nat} {s : MemoryStream} {length : UInt32} {p : List UInt8}

/-- The stream after `p` was written at the read position. -/
def overwrite (s : MemoryStream) (p : List UInt8) : MemoryStream :=
  { s with
    buffer := s.buffer.take s.readPosition ++ p ++ s.buffer.drop (s.readPosition + p.length) }

theorem take_overwrite (h : s.Inside) :
    (s.overwrite p).buffer.take s.readPosition = s.buffer.take s.readPosition := by
  rw [overwrite, List.append_assoc, List.take_left' (List.length_take_of_le h)]

theorem unread_overwrite (h : s.Inside) :
    (s.overwrite p).unread = p ++ s.unread.drop p.length := by
  rw [unread, overwrite, List.append_assoc, List.drop_left' (List.length_take_of_le h), unread,
    List.drop_drop]

/-- Growing the buffer first makes no difference to what is in it after the write. -/
theorem store_of_resize (h : s.Inside) :
    (if s.readPosition + p.length > s.buffer.length then
        { s with buffer := Zip.resize s.buffer (s.readPosition + p.length) } else s).store
      s.readPosition p = some (s.overwrite p) := by
  have hle := h.le
  split
  · rename_i hgrow
    have hlen : (Zip.resize s.buffer (s.readPosition + p.length)).length =
        s.readPosition + p.length := by
      rw [Zip.resize, List.length_append, List.length_take, List.length_replicate]
      omega
    have hfront : (Zip.resize s.buffer (s.readPosition + p.length)).take s.readPosition =
        s.buffer.take s.readPosition := by
      rw [Zip.resize, List.take_of_length_le (Nat.le_of_lt hgrow), List.take_append_of_le_length hle]
    rw [store_eq_some (Nat.le_of_eq hlen.symm)]
    simp only [hfront, overwrite]
    rw [List.drop_eq_nil_of_le (Nat.le_of_eq hlen), List.drop_eq_nil_of_le (Nat.le_of_lt hgrow)]
  · rename_i hfits
    exact store_eq_some (Nat.not_lt.1 hfits)

theorem decompress_eq (beyond : Beyond) (hpos : 0 < length.toNat)
    (hle : length.toNat ≤ s.unread.length)
    (hp : Zip.decompress zlib fuel (s.unread.take length.toNat) = some p) :
    s.decompress zlib fuel beyond length = some (.ok p.length (s.overwrite p)) := by
  have hunread : s.unread ≠ [] := List.ne_nil_of_length_pos (by omega)
  have hin := inside_of_unread hunread
  have hzero : length ≠ 0 := by
    rintro rfl
    exact absurd hpos (by decide)
  have hload := load_unread beyond (s := s) (i := 0) (n := length.toNat) (by omega) hpos
  rw [Nat.zero_add, List.drop_zero] at hload
  rw [decompress, if_neg hzero, hload]
  simp only [hp]
  have hstore := store_of_resize (p := p) hin
  split at hstore <;> rename_i hsize
  · simp only [if_pos hsize, hstore]
  · simp only [if_neg hsize, hstore]

/-- The segment is replaced by its text: what comes behind the segment comes behind the text, and
what is in front of the read position stays. -/
def Decompresses (zlib : Zlib σ) (fuel : Nat) (s : MemoryStream) (length : UInt32)
    (p : List UInt8) : Prop :=
  ∀ beyond, ∃ t, s.decompress zlib fuel beyond length = some (.ok p.length t) ∧
    t.readPosition = s.readPosition ∧
    t.buffer.take s.readPosition = s.buffer.take s.readPosition ∧
    t.unread = p ++ s.unread.drop length.toNat

/-- **Decompressing** replaces a segment exactly if it is as long as its text, or if nothing follows
it and the text is not shorter. -/
theorem decompresses_iff (hpos : 0 < length.toNat) (hle : length.toNat ≤ s.unread.length)
    (hp : Zip.decompress zlib fuel (s.unread.take length.toNat) = some p) :
    Decompresses zlib fuel s length p ↔ p.length = length.toNat ∨
      length.toNat = s.unread.length ∧ length.toNat ≤ p.length := by
  have hin : s.Inside := inside_of_unread (List.ne_nil_of_length_pos (by omega))
  constructor
  · intro h
    obtain ⟨t, ht, -, -, hrest⟩ := h fun _ => none
    rw [decompress_eq _ hpos hle hp] at ht
    cases ht
    rw [unread_overwrite hin, List.append_right_inj] at hrest
    have hlen := congrArg List.length hrest
    rw [List.length_drop, List.length_drop] at hlen
    omega
  · intro h beyond
    refine ⟨_, decompress_eq beyond hpos hle hp, rfl, take_overwrite hin, ?_⟩
    rw [unread_overwrite hin, List.append_right_inj]
    rcases h with hsame | ⟨hend, hlong⟩
    · rw [hsame]
    · rw [List.drop_eq_nil_of_le (by omega), List.drop_eq_nil_of_le (Nat.le_of_eq hend.symm)]

/-- The zlib stream of the one byte `a`. -/
def letterStream : List UInt8 := [0x78, 0xDA, 0x4B, 0x04, 0x00, 0x00, 0x62, 0x00, 0x62]

def letterZlib : Zlib (Nat × Nat) := paced [97] letterStream (Zip.late [97] letterStream)

theorem decompress_letter :
    Zip.decompress letterZlib 2 letterStream = some [97] := by
  decide +kernel

/-- The stream of `a` with a byte in front of it that has been read, and three bytes behind it. -/
def letterSegment : MemoryStream := { readPosition := 1, buffer := [9] ++ letterStream ++ [1, 2, 3] }

theorem decompress_letterSegment :
    Zip.decompress letterZlib 2 (letterSegment.unread.take (9 : UInt32).toNat) = some [97] := by
  have hsegment : letterSegment.unread.take (9 : UInt32).toNat = letterStream := by decide
  rw [hsegment]
  exact decompress_letter

/-- The zlib stream of eleven times `a` has eleven bytes as well. -/
def lettersStream : List UInt8 := [0x78, 0xDA, 0x4B, 0x4C, 0x84, 0x03, 0x00, 0x19, 0x0D, 0x04, 0x2C]

def letters : List UInt8 := List.replicate 11 97

def lettersZlib : Zlib (Nat × Nat) := paced letters lettersStream (Zip.late letters lettersStream)

theorem decompress_letters : Zip.decompress lettersZlib 2 lettersStream = some letters := by
  decide +kernel

theorem decompresses_iff_sample :
    Decompresses lettersZlib 2 (.ofBytes (lettersStream ++ [1, 2, 3])) 11 letters ∧
      ¬ Decompresses letterZlib 2 letterSegment 9 [97] := by
  have hsegment : (ofBytes (lettersStream ++ [1, 2, 3])).unread.take (11 : UInt32).toNat =
      lettersStream := by decide
  have hp : Zip.decompress lettersZlib 2
      ((ofBytes (lettersStream ++ [1, 2, 3])).unread.take (11 : UInt32).toNat) = some letters := by
    rw [hsegment]
    exact decompress_letters
  refine ⟨(decompresses_iff (by decide) (by decide) hp).2 (Or.inl (by decide)), ?_⟩
  intro h
  have hsize := (decompresses_iff (by decide) (by decide) decompress_letterSegment).1 h
  exact absurd hsize (by decide)

/-- Eight bytes of the compressed segment stay between the text and the bytes behind the segment. -/
theorem segment_not_replaced :
    letterSegment.decompress letterZlib 2 (fun _ => none) 9 =
        some (.ok 1 (letterSegment.overwrite [97])) ∧
      (letterSegment.overwrite [97]).unread =
        [97, 0xDA, 0x4B, 0x04, 0x00, 0x00, 0x62, 0x00, 0x62, 1, 2, 3] ∧
      ¬ Decompresses letterZlib 2 letterSegment 9 [97] := by
  have hdecompress : letterSegment.decompress letterZlib 2 (fun _ => none) 9 =
      some (.ok 1 (letterSegment.overwrite [97])) :=
    decompress_eq _ (by decide) (by decide) decompress_letterSegment
  have hunread : (letterSegment.overwrite [97]).unread =
      [97, 0xDA, 0x4B, 0x04, 0x00, 0x00, 0x62, 0x00, 0x62, 1, 2, 3] := by decide
  refine ⟨hdecompress, hunread, ?_⟩
  intro h
  obtain ⟨t, ht, -, -, hrest⟩ := h fun _ => none
  rw [hdecompress, Option.some.injEq] at ht
  cases ht
  rw [hunread] at hrest
  exact absurd hrest (by decide)

end KeycapRoot.Network.MemoryStream
