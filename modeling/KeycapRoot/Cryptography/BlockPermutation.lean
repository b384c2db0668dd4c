import KeycapRoot.Cryptography.TextbookRc4

/-!
# The block is a permutation

All that the constructor and `process` do to the block is swap two of its elements. So it stays a
permutation of the bytes, from the identity that the constructor begins with to the state behind any
processed byte (`block_stays_permutation`).
-/

namespace KeycapRoot.Cryptography

namespace Block

/-- Each byte is at one place of the block. -/
def IsPermutation (block : Block) : Prop := Function.Bijective block.index

theorem isPermutation_iota : iota.IsPermutation := by
  have hid : iota.index = id := funext index_iota
  rw [IsPermutation, hid]
  exact Function.bijective_id

theorem index_exchange_eq (block : Block) (i j : UInt8) :
    (block.exchange i j).index = block.index ∘ Equiv.swap i j := by
  funext k
  rw [index_exchange, Function.comp_apply, Equiv.swap_apply_def]
  split
  · rfl
  · split <;> rfl

/-- Swapping, also of an element with itself. -/
theorem IsPermutation.exchange {block : Block} (h : block.IsPermutation) (i j : UInt8) :
    (block.exchange i j).IsPermutation := by
  rw [IsPermutation, index_exchange_eq]
  exact h.comp (Equiv.swap i j).bijective

end Block

namespace ARC4

theorem keyRound_isPermutation {key : List UInt8} {s s' : KeyLoop} {i : Nat}
    (h : s.block.IsPermutation) (hround : keyRound key s i = some s') : s'.block.IsPermutation := by
  obtain ⟨b, -, hs'⟩ := Option.bind_eq_some_iff.1 hround
  cases hs'
  exact h.exchange _ _

theorem keyRounds_isPermutation {key : List UInt8} {rounds : List Nat} {s s' : KeyLoop}
    (h : s.block.IsPermutation) (hrounds : rounds.foldlM (keyRound key) s = some s') :
    s'.block.IsPermutation := by
  induction rounds generalizing s with
  | nil =>
    cases hrounds
    exact h
  | cons i rounds ih =>
    rw [List.foldlM_cons] at hrounds
    obtain ⟨t, ht, hrest⟩ := Option.bind_eq_some_iff.1 hrounds
    exact ih (keyRound_isPermutation h ht) hrest

theorem new_isPermutation {key : List UInt8} {c : ARC4} (h : new key = some c) :
    c.block.IsPermutation := by
  rw [new, Option.bind_eq_bind, Option.bind_eq_some_iff] at h
  obtain ⟨s, hs, hc⟩ := h
  cases hc
  have hstart : ({ block := Block.iota } : KeyLoop).block.IsPermutation := Block.isPermutation_iota
  exact keyRounds_isPermutation hstart hs

theorem advance_isPermutation {c : ARC4} (h : c.block.IsPermutation) :
    c.advance.block.IsPermutation := h.exchange _ _

/-- Behind each processed byte. -/
theorem process_isPermutation {c : ARC4} (h : c.block.IsPermutation) (data : List UInt8) :
    (process_ data c).2.block.IsPermutation := by
  induction data generalizing c with
  | nil => exact h
  | cons byte data ih => exact ih (advance_isPermutation h)

/-- Calls process their data as one call does, and that goes through the state behind each byte. -/
theorem processAll_snd {calls : List (List UInt8)} {before after : List UInt8}
    (hcalls : calls.flatten = before ++ after) (c : ARC4) :
    (processAll calls c).2 = (process_ after (process_ before c).2).2 := by
  have hflatten := congrArg Prod.snd (Keystream.flatten_processAll advance mask calls c)
  rw [hcalls, Keystream.process_append] at hflatten
  rw [processAll_eq, process_eq, process_eq]
  exact hflatten

/-- **Permutations.** With a key that is not empty, the block is a permutation of the bytes behind
the constructor and behind every byte that any calls process. -/
theorem block_stays_permutation (key : List UInt8) (hkey : key ≠ []) :
    ∃ c, new key = some c ∧ c.block.IsPermutation ∧
      ∀ calls before after, calls.flatten = before ++ after →
        (processAll calls c).2 = (process_ after (process_ before c).2).2 ∧
          (process_ before c).2.block.IsPermutation := by
  obtain ⟨c, hc⟩ := exists_new hkey
  have hpermutation := new_isPermutation hc
  refine ⟨c, hc, hpermutation, ?_⟩
  intro calls before after hcalls
  exact ⟨processAll_snd hcalls c, process_isPermutation hpermutation before⟩

-- the state behind two calls of "Key"
theorem block_stays_permutation_sample :
    ∃ c, new [75, 101, 121] = some c ∧ (processAll [[1, 2], [3]] c).2.block.IsPermutation := by
  obtain ⟨c, hc, -, hcalls⟩ := block_stays_permutation [75, 101, 121] (List.cons_ne_nil _ _)
  obtain ⟨hstate, hpermutation⟩ := hcalls [[1, 2], [3]] [1, 2, 3] [] rfl
  exact ⟨c, hc, hstate ▸ hpermutation⟩

end ARC4

end KeycapRoot.Cryptography
