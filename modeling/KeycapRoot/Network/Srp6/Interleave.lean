import KeycapRoot.Lib.Alternation
import KeycapRoot.Network.Srp6.Digests

/-!
# The interleaved hash in place

`sha_interleave` splits the bytes of `S` in the vector that holds them: an iterator is moved over
the zeros in front and over one more byte if an odd number is left, and a stable partition sorts the
bytes from there on by whether their address lies at an even distance from it. What is hashed are
the bytes at even and at odd places of the rest, in their order (`shaInterleave_interleaves`); and
where there is no rest, the end of the vector is dereferenced (`shaInterleaveInPlace_eq`).
-/

namespace KeycapRoot.Network.Srp6

open Alternation

def arrayIndex (element begin : Nat) : Int := element - begin

def isOdd (value : Int) : Bool := value.tmod 2 == 1

def isEven (value : Int) : Bool := !isOdd value

theorem isOdd_natCast (n : Nat) : isOdd n = decide (n % 2 = 1) := by
  have hcast : (n : Int).tmod 2 = (n % 2 : Nat) := (Int.ofNat_tmod n 2).symm
  rw [isOdd, hcast]
  grind

/-- The predicate of the partition holds at `begin` and at every other place behind it. -/
theorem isEven_arrayIndex_alternates (begin : Nat) :
    isEven (arrayIndex begin begin) = true ∧
      ∀ v, begin ≤ v → isEven (arrayIndex (v + 1) begin) = !isEven (arrayIndex v begin) := by
  have hindex (v : Nat) (hv : begin ≤ v) : arrayIndex v begin = (v - begin : Nat) := by
    rw [arrayIndex, Int.ofNat_sub hv]
  constructor
  · rw [hindex begin (Nat.le_refl _), isEven, isOdd_natCast, Nat.sub_self]
    rfl
  · intro v hv
    rw [hindex v hv, hindex (v + 1) (Nat.le_succ_of_le hv), Nat.succ_sub hv, isEven, isEven,
      isOdd_natCast, isOdd_natCast]
    grind

theorem length_trimmed_even (s : List UInt8) : (trimmed s).length % 2 = 0 := by
  unfold trimmed
  simp only
  split
  · next hodd =>
    rw [List.length_tail]
    omega
  · next heven => omega

/-- The iterator `begin`, moved over the zeros and over one more byte if an odd number is left. -/
def movedBegin (s : List UInt8) : Nat :=
  let begin := s.findIdx (· != 0)
  if isOdd (s.length - begin) then begin + 1 else begin

theorem drop_movedBegin (s : List UInt8) : s.drop (movedBegin s) = trimmed s := by
  have hzeros : s.dropWhile (· == 0) = s.drop (s.findIdx (· != 0)) :=
    List.dropWhile_eq_drop_findIdx_not
  have hdistance : ((s.length : Int) - (s.findIdx (· != 0) : Nat)) =
      ((s.length - s.findIdx (· != 0) : Nat) : Int) := (Int.ofNat_sub List.findIdx_le_length).symm
  unfold movedBegin trimmed
  simp only [hzeros, hdistance, isOdd_natCast, List.length_drop, decide_eq_true_eq]
  split
  · rw [List.tail_drop]
  · rfl

theorem movedBegin_le (s : List UInt8) : movedBegin s ≤ s.length := by
  have hle : s.findIdx (· != 0) ≤ s.length := List.findIdx_le_length
  unfold movedBegin
  simp only
  split
  · next hodd =>
    rw [← Int.ofNat_sub hle, isOdd_natCast, decide_eq_true_eq] at hodd
    omega
  · exact hle

section InPlace

variable (botan : Botan)

/-- `sha_interleave(S)` on the vector; nothing where it dereferences the end of the vector. -/
def shaInterleaveInPlace (S : Int) : Option (List UInt8) :=
  let s := encodeFlip botan S
  let begin := movedBegin s
  let (s, bound) := stablePartition (fun v => isEven (arrayIndex v begin)) begin s
  if begin < s.length ∧ bound < s.length then
    let G := botan.sha1 ((s.take bound).drop begin)
    let H := botan.sha1 (s.drop bound)
    some (interleave G H)
  else none

/-- The hash of the list of the bytes, by the bytes at even and at odd places. -/
theorem shaInterleave_eq (S : Int) :
    shaInterleave botan S =
      if trimmed (encodeFlip botan S) = [] then none
      else some (interleave (botan.sha1 (evens (trimmed (encodeFlip botan S))))
        (botan.sha1 (odds (trimmed (encodeFlip botan S))))) := by
  have hplaces (odd : Bool) (s : List UInt8) :
      placesOfParity odd s = if odd then odds s else evens s := by
    have halternates (n : Nat) : ((n + 1) % 2 == 1) = !(n % 2 == 1) := by grind
    have h := filter_zipIdx_alternating (fun i => (i % 2 == 1) == odd) s (k := 0)
      (fun n _ => by rw [halternates]; cases odd <;> simp)
    refine h.trans ?_
    cases odd with
    | true => rfl
    | false => rfl
  have hevens (s : List UInt8) : placesOfParity false s = evens s := hplaces false s
  have hodds (s : List UInt8) : placesOfParity true s = odds s := hplaces true s
  unfold shaInterleave
  simp only [hevens, hodds]
  rfl

/-- What is computed on the vector is what is computed on the list of its bytes, and the end of the
vector is dereferenced exactly where nothing is left of them. -/
theorem shaInterleaveInPlace_eq (S : Int) :
    shaInterleaveInPlace botan S = shaInterleave botan S := by
  rw [shaInterleave_eq]
  have hdrop := drop_movedBegin (encodeFlip botan S)
  have heven := length_trimmed_even (encodeFlip botan S)
  have hle := movedBegin_le (encodeFlip botan S)
  unfold shaInterleaveInPlace
  generalize encodeFlip botan S = s at *
  let pred (v : Nat) : Bool := isEven (arrayIndex v (movedBegin s))
  obtain ⟨hfirst, halternates⟩ : pred (movedBegin s) = true ∧
      ∀ v, movedBegin s ≤ v → pred (v + 1) = !pred v := isEven_arrayIndex_alternates (movedBegin s)
  have hfront := take_stablePartition pred hfirst halternates hle
  have hback := drop_stablePartition pred hfirst halternates hle
  rw [hdrop] at hfront hback
  change (let p := stablePartition pred (movedBegin s) s
    if movedBegin s < p.1.length ∧ p.2 < p.1.length then
      some (interleave (botan.sha1 ((p.1.take p.2).drop (movedBegin s)))
        (botan.sha1 (p.1.drop p.2)))
    else none) = _
  generalize stablePartition pred (movedBegin s) s = p at *
  have hfront' := congrArg List.length hfront
  have hback' := congrArg List.length hback
  simp only [List.length_drop, List.length_take] at hfront' hback'
  simp only
  cases hrest : trimmed s with
  | nil =>
    -- the bound is the end of the vector
    rw [hrest, odds_nil, List.length_nil] at hback'
    rw [if_pos rfl, if_neg (by omega)]
  | cons a rest =>
    cases rest with
    | nil => simp [hrest] at heven
    | cons b rest =>
      -- both halves have a byte, so both iterators can be dereferenced
      rw [hrest, evens_cons, List.length_cons] at hfront'
      rw [hrest, odds_cons, evens_cons, List.length_cons] at hback'
      rw [if_pos (by omega), if_neg (List.cons_ne_nil _ _), hfront, hback, hrest]

/-- **Interleaving.** Where some of the bytes of `S` are left, hashing those at even and those at
odd places and interleaving the two hashes is what the partition in place comes to. -/
theorem shaInterleave_interleaves (S : Nat) (hT : trimmed (encodeFlip botan S) ≠ []) :
    let T := trimmed (encodeFlip botan S)
    let G := botan.sha1 (evens T)
    let H := botan.sha1 (odds T)
    (∀ i, (evens T)[i]? = T[2 * i]? ∧ (odds T)[i]? = T[2 * i + 1]?) ∧
      ∃ K, shaInterleaveInPlace botan S = some K ∧ shaInterleave botan S = some K ∧
        K.length = 40 ∧ ∀ i, K[2 * i]? = G[i]? ∧ K[2 * i + 1]? = H[i]? := by
  intro T G H
  have hlength : G.length = H.length :=
    (botan.length_sha1 _).trans (botan.length_sha1 _).symm
  obtain ⟨hevens, hodds⟩ := evens_odds_interleave hlength
  have hresult : shaInterleave botan S = some (interleave G H) := by
    rw [shaInterleave_eq, if_neg hT]
  refine ⟨getElem?_evens_odds T, interleave G H, ?_, hresult, ?_, ?_⟩
  · rw [shaInterleaveInPlace_eq, hresult]
  · rw [length_interleave, botan.length_sha1, botan.length_sha1]
    rfl
  · intro i
    obtain ⟨heven, hodd⟩ := getElem?_evens_odds (interleave G H) i
    rw [← heven, ← hodd, hevens, hodds]
    exact ⟨rfl, rfl⟩

end InPlace

theorem shaInterleave_interleaves_sample :
    let S : Nat := 0x0504030201000000
    trimmed (encodeFlip Botan.standard S) = [2, 3, 4, 5] ∧
      ∃ K, shaInterleaveInPlace Botan.standard S = some K ∧ K.length = 40 := by
  have hT : trimmed (encodeFlip Botan.standard (0x0504030201000000 : Nat)) = [2, 3, 4, 5] := by
    decide +kernel
  obtain ⟨-, K, hK, -, hlength, -⟩ := shaInterleave_interleaves Botan.standard 0x0504030201000000
    (by rw [hT]; exact List.cons_ne_nil _ _)
  exact ⟨hT, K, hK, hlength⟩

end KeycapRoot.Network.Srp6
