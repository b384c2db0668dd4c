import KeycapRoot.Lib.Rc4
import KeycapRoot.Cryptography.ARC4

/-!
# ARC4 is RC4

The array of a cipher represents a permutation of the bytes. Each round of the constructor is a step
of the key schedule, because the index into the key is the number of the round modulo the length of
the key as long as there are rounds; and each byte is masked with what the generator puts out. So a
cipher computes RC4, for keys of any length that is not zero (`new_process_eq_rc4`).
-/

namespace KeycapRoot.Cryptography

namespace Block

/-- The array holds the permutation. -/
def Represents (block : Block) (S : Equiv.Perm (Fin 256)) : Prop :=
  ∀ k : UInt8, (block.index k).toFin = S k.toFin

theorem index_eq (block : Block) {i : UInt8} (hi : i.toNat < 256) :
    block.index i = block[i.toNat] := rfl

theorem index_iota (k : UInt8) : iota.index k = k := by
  rw [index_eq _ k.toNat_lt, iota, Vector.getElem_ofFn]
  exact UInt8.ofNat_toNat

theorem represents_iota : iota.Represents 1 := by
  intro k
  rw [index_iota]
  rfl

theorem index_exchange (block : Block) (i j k : UInt8) :
    (block.exchange i j).index k =
      if k = i then block.index j else if k = j then block.index i else block.index k := by
  rw [index_eq _ k.toNat_lt, index_eq _ j.toNat_lt, index_eq _ i.toNat_lt, index_eq _ k.toNat_lt]
  unfold Block.exchange
  rw [Vector.getElem_swap]
  simp only [UInt8.toNat_inj]

theorem Represents.exchange {block : Block} {S : Equiv.Perm (Fin 256)} (h : block.Represents S)
    (i j : UInt8) : (block.exchange i j).Represents (S * Equiv.swap i.toFin j.toFin) := by
  intro k
  rw [index_exchange, Equiv.Perm.mul_apply, Equiv.swap_apply_def]
  simp only [UInt8.toFin_inj]
  split
  · exact h j
  · split
    · exact h i
    · exact h k

end Block

namespace ARC4

/-! ## The key schedule -/

section Schedule

variable {key : List UInt8} (hkey : key ≠ [])

/-- What step `t` of the key schedule adds. -/
def keyByte (t : Nat) : Fin 256 := (Rc4.repeatKey key hkey t).toFin

/-- After `t` rounds the array and `k` are those of the key schedule, and the index into the key is
`t` modulo its length; only the last round can lose the index, and no round is behind it. -/
structure Scheduled (t : Nat) (s : KeyLoop) : Prop where
  block : s.block.Represents (Rc4.scheduleSteps (keyByte hkey) t).1
  k : s.k.toFin = (Rc4.scheduleSteps (keyByte hkey) t).2
  j : t < 256 → s.j.toNat = t % key.length

theorem scheduled_start : Scheduled hkey 0 { block := Block.iota } where
  block := Block.represents_iota
  k := rfl
  j := fun _ => (Nat.zero_mod _).symm

theorem Scheduled.round {t : Nat} {s : KeyLoop} (h : Scheduled hkey t s) (ht : t < 256) :
    ∃ s', keyRound key s t = some s' ∧ Scheduled hkey (t + 1) s' := by
  have hpos : 0 < key.length := List.length_pos_iff.2 hkey
  have hj := h.j ht
  have hinside : s.j.toNat < key.length := by
    rw [hj]
    exact Nat.mod_lt _ hpos
  have hbyte : key[s.j.toNat] = Rc4.repeatKey key hkey t := by
    unfold Rc4.repeatKey
    simp only [hj, List.get_eq_getElem]
  have hi : (UInt8.ofNat t).toFin = Fin.ofNat 256 t := rfl
  refine ⟨_, by rw [keyRound, List.getElem?_eq_getElem hinside]; rfl, ?_⟩
  have hk : (key[s.j.toNat] + s.block.index (UInt8.ofNat t) + s.k).toFin =
      (Rc4.scheduleSteps (keyByte hkey) (t + 1)).2 := by
    rw [Rc4.scheduleSteps_succ, UInt8.toFin_add, UInt8.toFin_add, h.block, h.k, hbyte, hi,
      keyByte]
    grind
  constructor
  · have hblock := h.block.exchange (UInt8.ofNat t)
      (key[s.j.toNat] + s.block.index (UInt8.ofNat t) + s.k)
    rw [hk] at hblock
    exact hblock
  · exact hk
  · intro ht'
    change (UInt8.ofNat ((s.j.toNat + 1) % key.length)).toNat = (t + 1) % key.length
    have hle := Nat.mod_le (t + 1) key.length
    rw [hj, Nat.mod_add_mod, UInt8.toNat_ofNat', Nat.mod_eq_of_lt (by omega)]

theorem exists_scheduled {t : Nat} (ht : t ≤ 256) :
    ∃ s, (List.range t).foldlM (keyRound key) { block := Block.iota } = some s ∧
      Scheduled hkey t s := by
  induction t with
  | zero => exact ⟨_, rfl, scheduled_start hkey⟩
  | succ t ih =>
    obtain ⟨s, hs, hscheduled⟩ := ih (by omega)
    obtain ⟨s', hs', hnext⟩ := hscheduled.round hkey (by omega)
    refine ⟨s', ?_, hnext⟩
    rw [List.range_succ, List.foldlM_append, hs]
    simp [hs']

/-- The constructor computes the key schedule. -/
theorem new_represents :
    ∃ c, new key = some c ∧ c.block.Represents (Rc4.keySchedule (keyByte hkey)) ∧
      c.x = 0 ∧ c.y = 0 := by
  obtain ⟨s, hs, hscheduled⟩ := exists_scheduled hkey (Nat.le_refl 256)
  exact ⟨{ block := s.block }, by rw [new, hs]; rfl, hscheduled.block, rfl, rfl⟩

end Schedule

/-! ## The keystream -/

/-- The cipher is in the state of the generator. -/
structure Agrees (c : ARC4) (s : Rc4.State 256) : Prop where
  block : c.block.Represents s.S
  x : c.x.toFin = s.i
  y : c.y.toFin = s.j

theorem Agrees.advance {c : ARC4} {s : Rc4.State 256} (h : Agrees c s) :
    Agrees c.advance (Rc4.next s) := by
  have hx : (c.x + 1).toFin = s.i + 1 := by
    rw [UInt8.toFin_add, h.x]
    rfl
  have hy : (c.block.index (c.x + 1) + c.y).toFin = s.j + s.S (s.i + 1) := by
    rw [UInt8.add_comm, UInt8.toFin_add, h.y, h.block, hx]
  constructor
  · have hblock := h.block.exchange (c.x + 1) (c.block.index (c.x + 1) + c.y)
    rw [hx, hy] at hblock
    exact hblock
  · exact hx
  · exact hy

theorem Agrees.mask {c : ARC4} {s : Rc4.State 256} (h : Agrees c s) (byte : UInt8) :
    c.mask byte = byte ^^^ UInt8.ofFin (Rc4.output s) := by
  have hindex : (c.block.index (c.block.index c.x + c.block.index c.y)).toFin = Rc4.output s := by
    rw [h.block, UInt8.toFin_add, h.block, h.block, h.x, h.y]
    rfl
  rw [ARC4.mask, ← hindex, UInt8.ofFin_toFin]

theorem Agrees.process_ {c : ARC4} {s : Rc4.State 256} (h : Agrees c s) (data : List UInt8) :
    (process_ data c).1 =
      List.zipWith (· ^^^ ·) data ((Rc4.keystream data.length s).map UInt8.ofFin) := by
  induction data generalizing c s with
  | nil => rfl
  | cons byte data ih =>
    have hstep := h.advance
    simp only [ARC4.process_, List.length_cons, Rc4.keystream, List.map_cons,
      List.zipWith_cons_cons, hstep.mask, ih hstep]

/-- **RC4.** For every key that is not empty the constructor indexes nothing outside the key and
computes the key schedule of RC4, and the cipher masks its data with the keystream. -/
theorem new_process_eq_rc4 (key : List UInt8) (hkey : key ≠ []) :
    ∃ c, new key = some c ∧
      c.block.Represents (Rc4.keySchedule fun t => (Rc4.repeatKey key hkey t).toFin) ∧
      ∀ data, (c.process data).1 = List.zipWith (· ^^^ ·) data
        ((Rc4.keystream data.length
          (Rc4.start fun t => (Rc4.repeatKey key hkey t).toFin)).map UInt8.ofFin) := by
  have hbytes : (fun t => (Rc4.repeatKey key hkey t).toFin) = keyByte hkey := rfl
  obtain ⟨c, hnew, hblock, hx, hy⟩ := new_represents hkey
  have hagrees : Agrees c (Rc4.start (keyByte hkey)) := by
    constructor
    · rw [Rc4.start_S]
      exact hblock
    · rw [hx, Rc4.start_i]
      rfl
    · rw [hy, Rc4.start_j]
      rfl
  rw [hbytes]
  refine ⟨c, hnew, hblock, ?_⟩
  intro data
  rw [process, hagrees.process_]

-- "Key", and a key that is longer than the array
theorem new_process_eq_rc4_sample :
    (∃ c, new [75, 101, 121] = some c ∧ ∀ data, (c.process data).1.length = data.length) ∧
      ∃ c, new (List.replicate 300 7) = some c := by
  constructor
  · obtain ⟨c, hnew, -, hprocess⟩ := new_process_eq_rc4 [75, 101, 121] (List.cons_ne_nil _ _)
    refine ⟨c, hnew, ?_⟩
    intro data
    rw [hprocess, List.length_zipWith, List.length_map, Rc4.length_keystream, Nat.min_self]
  · obtain ⟨c, hnew, -, -⟩ := new_process_eq_rc4 (List.replicate 300 7)
      (mt (List.replicate_eq_nil_iff 7).1 (by decide))
    exact ⟨c, hnew⟩

end ARC4

end KeycapRoot.Cryptography
