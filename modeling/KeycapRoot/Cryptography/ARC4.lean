import KeycapRoot.Lib.Keystream

/-!
# ARC4

The block of a cipher is scheduled from a key that must not be empty; then it moves on by one
swap for each byte that is processed, and the byte is masked with an element of it. So the state
does not depend on the data, and data that is processed twice by ciphers with one key comes back,
however it is cut into calls (`split_round_trip`).
-/

namespace KeycapRoot.Cryptography

/-- `std::array<uint8, block_size>`. -/
abbrev Block := Vector UInt8 256

namespace Block

/-- `block_[i]`: an index of one byte is always in the block. -/
def index (block : Block) (i : UInt8) : UInt8 := Vector.get block ⟨i.toNat, i.toNat_lt⟩

/-- `std::swap(block_[i], block_[j])`. -/
def exchange (block : Block) (i j : UInt8) : Block :=
  Vector.swap block i.toNat j.toNat i.toNat_lt j.toNat_lt

/-- `std::iota`. -/
def iota : Block := Vector.ofFn fun i => UInt8.ofNat i.val

end Block

structure ARC4 where
  block : Block
  x : UInt8 := 0
  y : UInt8 := 0
  deriving DecidableEq

namespace ARC4

/-! ## The key schedule -/

/-- The variables of the constructor's loop. -/
structure KeyLoop where
  block : Block
  j : UInt8 := 0
  k : UInt8 := 0

/-- One round of the loop. The key is indexed without a check, and with an empty one there is
nothing to index. -/
def keyRound (key : List UInt8) (s : KeyLoop) (i : Nat) : Option KeyLoop := do
  let b ← key[s.j.toNat]?
  let k := b + s.block.index (UInt8.ofNat i) + s.k
  return {
    block := s.block.exchange (UInt8.ofNat i) k
    j := UInt8.ofNat ((s.j.toNat + 1) % key.length)
    k }

/-- The constructor; nothing where it indexes outside the key. -/
def new (key : List UInt8) : Option ARC4 := do
  let s ← (List.range 256).foldlM (keyRound key) { block := Block.iota }
  return { block := s.block }

/-- A round with the index inside the key leaves it inside. -/
theorem keyRound_inside {key : List UInt8} (hkey : key ≠ []) {s : KeyLoop}
    (hj : s.j.toNat < key.length) (i : Nat) :
    ∃ s', keyRound key s i = some s' ∧ s'.j.toNat < key.length := by
  have hpos : 0 < key.length := List.length_pos_iff.2 hkey
  have hmod : (s.j.toNat + 1) % key.length < key.length := Nat.mod_lt _ hpos
  refine ⟨_, by rw [keyRound, List.getElem?_eq_getElem hj]; rfl, ?_⟩
  change (UInt8.ofNat ((s.j.toNat + 1) % key.length)).toNat < key.length
  rw [UInt8.toNat_ofNat']
  exact Nat.lt_of_le_of_lt (Nat.mod_le _ _) hmod

theorem keyRounds_inside {key : List UInt8} (hkey : key ≠ []) (rounds : List Nat) {s : KeyLoop}
    (hj : s.j.toNat < key.length) : ∃ s', rounds.foldlM (keyRound key) s = some s' := by
  induction rounds generalizing s with
  | nil => exact ⟨s, rfl⟩
  | cons i rounds ih =>
    obtain ⟨s', hs', hj'⟩ := keyRound_inside hkey hj i
    obtain ⟨t, ht⟩ := ih hj'
    exact ⟨t, by rw [List.foldlM_cons, hs', Option.bind_eq_bind, Option.bind_some, ht]⟩

/-- With a key that is not empty the constructor indexes nothing outside it. -/
theorem exists_new {key : List UInt8} (hkey : key ≠ []) : ∃ c, new key = some c := by
  have hj : (0 : UInt8).toNat < key.length := List.length_pos_iff.2 hkey
  obtain ⟨s, hs⟩ := keyRounds_inside hkey (List.range 256) (s := { block := Block.iota }) hj
  exact ⟨_, by rw [new, hs]; rfl⟩

/-! ## Processing -/

/-- The state moves on. -/
def advance (c : ARC4) : ARC4 :=
  let x := c.x + 1
  let y := c.block.index x + c.y
  { block := c.block.exchange x y, x, y }

/-- The byte is masked. -/
def mask (c : ARC4) (byte : UInt8) : UInt8 :=
  let j := c.block.index c.x + c.block.index c.y
  byte ^^^ c.block.index j

/-- `process_(begin, size)` on the bytes from `begin` on. -/
def process_ : List UInt8 → ARC4 → List UInt8 × ARC4
  | [], c => ([], c)
  | byte :: rest, c =>
    let c := c.advance
    let (out, t) := process_ rest c
    (c.mask byte :: out, t)

/-- `process(data, size)`. -/
def process (c : ARC4) (data : List UInt8) : List UInt8 × ARC4 := process_ data c

/-- One call of `process` after another. -/
def processAll : List (List UInt8) → ARC4 → List (List UInt8) × ARC4
  | [], c => ([], c)
  | data :: calls, c =>
    let (first, c) := c.process data
    let (rest, t) := processAll calls c
    (first :: rest, t)

theorem process_eq (data : List UInt8) (c : ARC4) :
    process_ data c = Keystream.process advance mask data c := by
  induction data generalizing c with
  | nil => rfl
  | cons byte data ih => rw [process_, ih, Keystream.process_cons]

theorem processAll_eq (calls : List (List UInt8)) (c : ARC4) :
    processAll calls c = Keystream.processAll advance mask calls c := by
  induction calls generalizing c with
  | nil => rfl
  | cons data calls ih => simp only [processAll, process, process_eq, ih, Keystream.processAll]

theorem mask_mask (c : ARC4) (byte : UInt8) : c.mask (c.mask byte) = byte := by
  rw [mask, mask, UInt8.xor_assoc, UInt8.xor_self, UInt8.xor_zero]

/-- **Round trips.** Let one cipher process a text in some calls and another with the same key the
result in some other calls: the text comes back, and both ciphers are in the same state. -/
theorem split_round_trip (key : List UInt8) (hkey : key ≠ []) :
    ∃ c, new key = some c ∧ ∀ first second : List (List UInt8),
      second.flatten = (processAll first c).1.flatten →
      (processAll second c).1.flatten = first.flatten ∧
        (processAll second c).2 = (processAll first c).2 := by
  obtain ⟨c, hc⟩ := exists_new hkey
  refine ⟨c, hc, ?_⟩
  intro first second hsecond
  have hfirst := Keystream.flatten_processAll advance mask first c
  have hback := Keystream.flatten_processAll advance mask second c
  rw [processAll_eq] at hsecond
  have hdata : second.flatten = (Keystream.process advance mask first.flatten c).1 := by
    rw [hsecond, ← hfirst]
  rw [hdata, Keystream.process_process advance mask mask_mask, ← hfirst, Prod.mk.injEq] at hback
  rwa [processAll_eq, processAll_eq]

theorem split_round_trip_sample :
    ∃ c, new [1, 2, 3] = some c ∧
      (processAll [(processAll [[4, 5], [6]] c).1.flatten] c).1.flatten = [4, 5, 6] := by
  obtain ⟨c, hc, hround⟩ := split_round_trip [1, 2, 3] (by decide)
  exact ⟨c, hc, (hround [[4, 5], [6]] [_] (List.append_nil _)).1⟩

end ARC4

end KeycapRoot.Cryptography
