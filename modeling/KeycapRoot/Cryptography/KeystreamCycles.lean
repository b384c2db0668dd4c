import KeycapRoot.Lib.Rc4Cycles
import KeycapRoot.Cryptography.TextbookRc4

/-!
# Where a cipher comes and where it never comes

The state of a cipher is that of the generator (`Agrees`), and it determines the cipher. So behind
the constructor a cipher comes back to where it began, however much it has processed in between
(`state_returns`), and it never comes to one of the short cycles of the generator (`never_finney`).
-/

namespace KeycapRoot.Cryptography

open Block

theorem Block.Represents.unique {block block' : Block} {S : Equiv.Perm (Fin 256)}
    (h : block.Represents S) (h' : block'.Represents S) : block = block' := by
  apply Vector.ext
  intro i hi
  have hplace : (UInt8.ofNat i).toNat = i := UInt8.toNat_ofNat_of_lt' hi
  have hbyte : block.index (UInt8.ofNat i) = block'.index (UInt8.ofNat i) :=
    UInt8.toFin_inj.1 ((h _).trans (h' _).symm)
  have hread : ∀ b : Block, b.index (UInt8.ofNat i) = b[i] := by
    intro b
    rw [index_eq b (UInt8.toNat_lt _)]
    simp only [hplace]
  rwa [hread, hread] at hbyte

namespace ARC4

theorem Agrees.unique {c c' : ARC4} {s : Rc4.State 256} (h : Agrees c s) (h' : Agrees c' s) :
    c = c' := by
  have hblock := h.block.unique h'.block
  have hx : c.x = c'.x := UInt8.toFin_inj.1 (h.x.trans h'.x.symm)
  have hy : c.y = c'.y := UInt8.toFin_inj.1 (h.y.trans h'.y.symm)
  cases c
  cases c'
  simp only at hblock hx hy
  rw [hblock, hx, hy]

theorem Agrees.iterate {c : ARC4} {s : Rc4.State 256} (h : Agrees c s) (k : Nat) :
    Agrees (ARC4.advance^[k] c) (Rc4.next^[k] s) := by
  induction k generalizing c s with
  | zero => exact h
  | succ k ih => exact ih h.advance

/-- The constructor puts the cipher in the first state of the generator. -/
theorem exists_new_agrees {key : List UInt8} (hkey : key ≠ []) :
    ∃ c, new key = some c ∧ Agrees c (Rc4.start (keyByte hkey)) := by
  obtain ⟨c, hnew, hblock, hx, hy⟩ := new_represents hkey
  refine ⟨c, hnew, ?_, ?_, ?_⟩
  · rw [Rc4.start_S]
    exact hblock
  · rw [hx, Rc4.start_i]
    rfl
  · rw [hy, Rc4.start_j]
    rfl

/-- The state behind any calls is as many steps on as they have processed bytes. -/
theorem processAll_iterate (calls : List (List UInt8)) (c : ARC4) :
    (processAll calls c).2 = advance^[calls.flatten.length] c := by
  have hflatten := congrArg Prod.snd (Keystream.flatten_processAll advance mask calls c)
  rw [Keystream.process_snd] at hflatten
  rw [processAll_eq]
  exact hflatten

/-- **Cycles.** For every key that is not empty there is a number of bytes behind which the cipher
is as the constructor left it, whatever the bytes are and whatever calls they come in. -/
theorem state_returns (key : List UInt8) (hkey : key ≠ []) :
    ∃ c, new key = some c ∧ ∃ k, 0 < k ∧ k ≤ Nat.factorial 256 * (256 * 256) ∧
      ∀ calls : List (List UInt8), calls.flatten.length = k → (processAll calls c).2 = c := by
  obtain ⟨c, hnew, hagrees⟩ := exists_new_agrees hkey
  obtain ⟨k, hpos, hbound, hcycle⟩ := Rc4.exists_cycle (Rc4.start (keyByte hkey))
  refine ⟨c, hnew, k, hpos, hbound, ?_⟩
  intro calls hlen
  rw [processAll_iterate, hlen]
  have hback := hagrees.iterate k
  rw [hcycle] at hback
  exact hback.unique hagrees

-- "Key"
theorem state_returns_sample :
    ∃ c, new [75, 101, 121] = some c ∧ ∃ k, 0 < k ∧
      (processAll [List.replicate k 0] c).2 = c := by
  obtain ⟨c, hnew, k, hpos, -, hback⟩ := state_returns [75, 101, 121] (List.cons_ne_nil _ _)
  refine ⟨c, hnew, k, hpos, hback _ ?_⟩
  rw [List.flatten_singleton, List.length_replicate]

/-- **Short cycles.** For every key that is not empty, no calls bring the cipher to a state in which
`y` is one ahead of `x` and the block has a one there. -/
theorem never_finney (key : List UInt8) (hkey : key ≠ []) :
    ∃ c, new key = some c ∧ ∀ calls : List (List UInt8),
      ¬ ((processAll calls c).2.y = (processAll calls c).2.x + 1 ∧
        (processAll calls c).2.block.index (processAll calls c).2.y = 1) := by
  obtain ⟨c, hnew, hagrees⟩ := exists_new_agrees hkey
  refine ⟨c, hnew, ?_⟩
  intro calls hfinney
  have hstate := hagrees.iterate calls.flatten.length
  rw [← processAll_iterate] at hstate
  obtain ⟨hahead, hone⟩ := hfinney
  apply Rc4.not_finney_run (by decide) (keyByte hkey) calls.flatten.length
  constructor
  · rw [← hstate.y, ← hstate.x, hahead]
    rfl
  · rw [← hstate.y, ← hstate.block, hone]
    rfl

-- three calls of "Key"
theorem never_finney_sample :
    ∃ c, new [75, 101, 121] = some c ∧
      ¬ ((processAll [[1, 2], [], [3]] c).2.y = (processAll [[1, 2], [], [3]] c).2.x + 1 ∧
        (processAll [[1, 2], [], [3]] c).2.block.index
          (processAll [[1, 2], [], [3]] c).2.y = 1) := by
  obtain ⟨c, hnew, hnever⟩ := never_finney [75, 101, 121] (List.cons_ne_nil _ _)
  exact ⟨c, hnew, hnever _⟩

end ARC4

end KeycapRoot.Cryptography
