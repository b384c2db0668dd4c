import KeycapRoot.Utility.EnumConsistency
import KeycapRoot.Utility.EnumFlags

/-!
# Names of values

With `fillMissing`, `makeValueNameMap` also gives names to combinations of flags: a value that is in
reach of the counter, was not declared and is no flag itself is named by the flags in it that have
names. The table is filled in place while it is read, but only at keys that are never read
(`filled_table`). `to_string` reads the table with `operator[]`, which inserts what it does not
find, and still no call sees what the ones before it have left behind (`to_string_answers`).
-/

namespace KeycapRoot.Utility.Enum

/-! ## Filling -/

/-- `isPowerOfTwoOrZero(number)`. The number must have a predecessor. -/
def isPowerOfTwoOrZero (number : Int) : Option Bool :=
  (toInt32 (number - 1)).map fun less =>
    (BitVec.ofInt 32 number &&& BitVec.ofInt 32 less) == 0#32

/-- `bits.test(n)`, with the bits of a number. -/
def testBit (i : Int) (n : Nat) : Bool := (BitVec.ofInt 32 i).getLsbD n

/-- `1 << n`. -/
def flag (n : Nat) : Int := (1#32 <<< n).toInt

/-- Where the loop over the bits is: the map, and whether no name was found yet. -/
structure Naming where
  map : ValueNameMap
  first : Bool := true

/-- The body of the loop over the bits of a number. -/
def Naming.visit (i : Int) (s : Naming) (n : Nat) : Naming :=
  if testBit i n then
    match s.map.lookup (flag n) with
    | none => s
    | some name =>
      if s.first then { map := s.map.insert i name, first := false }
      else { s with map := s.map.insert i ((s.map.lookup i).getD [] ++ " | ".toList ++ name) }
  else s

/-- The body of the loop over the numbers. -/
def fillValue (map : ValueNameMap) (i : Int) : Option ValueNameMap :=
  (isPowerOfTwoOrZero i).map fun skipped =>
    if skipped then map
    else if i ∈ map then map
    else ((List.range 32).foldl (Naming.visit i) { map }).map

/-- The loop over so many numbers from `i` on. -/
def fillFrom : Nat → Int → ValueNameMap → Option ValueNameMap
  | 0, _, map => some map
  | count + 1, i, map => (fillValue map i).bind (fillFrom count (i + 1))

/-- `makeValueNameMap(values, lookup, true)`, undefined where the doubled counter overflows. -/
def makeFilledMap (values : List Char) : Option ValueNameMap :=
  (doForEachEntry (fun map entry value => if value ∈ map then map else map.insert value entry)
    values.length values { built := (∅ : ValueNameMap) }).bind fun w =>
      (toInt32 (w.currentValue * 2)).bind fun maxValue =>
        fillFrom (maxValue - w.minValue).toNat w.minValue w.built

/-! ## What the table says -/

/-- The names, with bars between them. -/
def combined (names : List (List Char)) : Option (List Char) :=
  if names = [] then none else some (List.intercalate " | ".toList names)

/-- The names of the flags in a number. -/
def flagNames (names : Int → Option (List Char)) (i : Int) (ns : List Nat) : List (List Char) :=
  ns.filterMap fun n => if testBit i n then names (flag n) else none

/-- Zero or a single bit. -/
def Single (i : Int) : Prop := i = 0 ∨ ∃ n < 31, i = 2 ^ n

open Classical in
/-- The name of a value in a table that is filled between two bounds. -/
noncomputable def filledName (names : Int → Option (List Char)) (lo hi i : Int) :
    Option (List Char) :=
  (names i).or (if lo ≤ i ∧ i < hi ∧ ¬ Single i then combined (flagNames names i (List.range 32))
    else none)

theorem intercalate_concat (sep name : List Char) {names : List (List Char)} (h : names ≠ []) :
    List.intercalate sep (names ++ [name]) = List.intercalate sep names ++ sep ++ name := by
  induction names with
  | nil => exact absurd rfl h
  | cons head names ih =>
    cases names with
    | nil => simp [List.intercalate]
    | cons next names =>
      have hrest := ih (List.cons_ne_nil next names)
      simp only [List.intercalate, List.cons_append, List.intersperse_cons_cons,
        List.flatten_cons, List.append_assoc] at hrest ⊢
      rw [hrest]

theorem combined_concat (names : List (List Char)) (name : List Char) :
    combined (names ++ [name]) =
      if names = [] then some name
      else some ((combined names).getD [] ++ " | ".toList ++ name) := by
  have hne : names ++ [name] ≠ [] := List.append_ne_nil_of_right_ne_nil names (List.cons_ne_nil _ _)
  rw [combined, if_neg hne]
  by_cases h : names = []
  · rw [if_pos h, h]
    simp [List.intercalate]
  · rw [if_neg h, intercalate_concat _ _ h, combined, if_neg h, Option.getD_some]

/-! ## Flags -/

theorem flag_eq {n : Nat} (h : n < 31) : flag n = 2 ^ n := by
  have hall : ∀ n : Fin 31, flag n = 2 ^ (n : Nat) := by decide
  exact hall ⟨n, h⟩

theorem flag_last : flag 31 = int32Min := by decide

/-- Numbers below zero keep bit 31 when one is taken from them. -/
theorem and_pred_of_neg {i : Int} (hi : int32Min < i) (hneg : i < 0) :
    BitVec.ofInt 32 i &&& BitVec.ofInt 32 (i - 1) ≠ 0#32 := by
  have hmsb (j : Int) (hj : int32Min ≤ j) (hj' : j < 0) : (BitVec.ofInt 32 j).msb = true := by
    unfold int32Min at hj
    rw [BitVec.msb_eq_toInt, BitVec.toInt_ofInt, Int.bmod_eq_of_le (by omega) (by omega)]
    exact decide_eq_true hj'
  intro hzero
  have hand := congrArg BitVec.msb hzero
  have hless : int32Min ≤ i - 1 := by omega
  rw [BitVec.msb_and, hmsb i (by omega) hneg, hmsb (i - 1) hless (by omega)] at hand
  exact absurd hand (by decide)

theorem and_pred_of_pos {i : Int} (hpos : 0 < i) (hmax : i ≤ int32Max) :
    BitVec.ofInt 32 i &&& BitVec.ofInt 32 (i - 1) = 0#32 ↔ ∃ n < 31, i = 2 ^ n := by
  obtain ⟨k, rfl⟩ := Int.eq_ofNat_of_zero_le (Int.le_of_lt hpos)
  have hk : k ≠ 0 := by omega
  have hless : (k : Int) - 1 = ((k - 1 : Nat) : Int) := by omega
  have hbound : k < 2 ^ 31 := by
    unfold int32Max at hmax
    omega
  have hbits : BitVec.ofInt 32 k &&& BitVec.ofInt 32 (k - 1) = 0#32 ↔ k &&& (k - 1) = 0 := by
    rw [hless, BitVec.ofInt_natCast, BitVec.ofInt_natCast, ← BitVec.toNat_inj, BitVec.toNat_and,
      BitVec.toNat_ofNat, BitVec.toNat_ofNat, Nat.mod_eq_of_lt (by omega),
      Nat.mod_eq_of_lt (by omega), BitVec.toNat_ofNat, Nat.zero_mod]
  rw [hbits, Nat.and_sub_one_eq_zero_iff_isPowerOfTwo hk]
  constructor
  · rintro ⟨n, rfl⟩
    exact ⟨n, (Nat.pow_lt_pow_iff_right (by decide)).1 hbound, by simp⟩
  · rintro ⟨n, -, hn⟩
    exact ⟨n, by exact_mod_cast hn⟩

theorem isPowerOfTwoOrZero_eq {i : Int} (hi : int32Min < i) (hmax : i ≤ int32Max) :
    ∃ skipped, isPowerOfTwoOrZero i = some skipped ∧ (skipped = true ↔ Single i) := by
  have hless : toInt32 (i - 1) = some (i - 1) := by
    rw [toInt32, if_pos]
    omega
  refine ⟨_, by rw [isPowerOfTwoOrZero, hless, Option.map_some], ?_⟩
  rw [beq_iff_eq, Single]
  rcases Int.lt_trichotomy i 0 with hneg | rfl | hpos
  · refine iff_of_false (and_pred_of_neg hi hneg) ?_
    rintro (rfl | ⟨n, -, rfl⟩)
    · exact absurd hneg (by decide)
    · exact absurd hneg (Int.not_lt.2 (Int.le_of_lt (Int.pow_pos (by decide))))
  · exact iff_of_true (by decide) (Or.inl rfl)
  · rw [and_pred_of_pos hpos hmax]
    constructor
    · exact Or.inr
    · rintro (rfl | hpow)
      · exact absurd hpos (by decide)
      · exact hpow

/-- A number that is filled in is no flag that is looked up. -/
theorem flag_ne {i : Int} (hi : int32Min < i) (hsingle : ¬ Single i) {n : Nat} (hn : n < 32) :
    flag n ≠ i := by
  intro heq
  rcases Nat.lt_or_eq_of_le (Nat.le_of_lt_succ hn) with hlow | rfl
  · exact hsingle (Or.inr ⟨n, hlow, by rw [← heq, flag_eq hlow]⟩)
  · rw [flag_last] at heq
    exact absurd (heq ▸ hi) (Int.lt_irrefl _)

/-! ## The loops -/

/-- The loop over the bits has found these names. Elsewhere the map is what it was. -/
structure Named (map : ValueNameMap) (i : Int) (found : List (List Char)) (s : Naming) : Prop where
  here : s.map.lookup i = combined found
  elsewhere : ∀ j, j ≠ i → s.map.lookup j = map.lookup j
  first : s.first = true ↔ found = []

section Bits

variable {map : ValueNameMap} {i : Int}

theorem Named.visit {found : List (List Char)} {s : Naming} (h : Named map i found s) {n : Nat}
    (hne : flag n ≠ i) :
    Named map i (found ++ flagNames map.lookup i [n]) (s.visit i n) := by
  rw [Naming.visit, flagNames, List.filterMap_cons, List.filterMap_nil, h.elsewhere _ hne]
  by_cases hbit : testBit i n = true
  · rw [if_pos hbit, if_pos hbit]
    cases map.lookup (flag n) with
    | none =>
      rw [List.append_nil]
      exact h
    | some name =>
      by_cases hfirst : s.first = true
      · have hfound := h.first.1 hfirst
        simp only [if_pos hfirst]
        refine ⟨?_, ?_, ?_⟩
        · rw [AList.lookup_insert, combined_concat, if_pos hfound]
        · intro j hj
          rw [AList.lookup_insert_ne hj, h.elsewhere j hj]
        · simp
      · have hfound : found ≠ [] := fun hnil => hfirst (h.first.2 hnil)
        simp only [if_neg hfirst]
        refine ⟨?_, ?_, ?_⟩
        · rw [AList.lookup_insert, combined_concat, if_neg hfound, h.here]
        · intro j hj
          rw [AList.lookup_insert_ne hj, h.elsewhere j hj]
        · simp [hfirst]
  · rw [if_neg hbit, if_neg hbit, List.append_nil]
    exact h

theorem Named.run {ns : List Nat} (hne : ∀ n ∈ ns, flag n ≠ i) {found : List (List Char)}
    {s : Naming} (h : Named map i found s) :
    Named map i (found ++ flagNames map.lookup i ns) (ns.foldl (Naming.visit i) s) := by
  induction ns generalizing found s with
  | nil =>
    rw [flagNames, List.filterMap_nil, List.append_nil]
    exact h
  | cons n ns ih =>
    obtain ⟨hn, hns⟩ := List.forall_mem_cons.1 hne
    have hsplit : flagNames map.lookup i (n :: ns) =
        flagNames map.lookup i [n] ++ flagNames map.lookup i ns :=
      List.filterMap_append (l := [n])
    rw [hsplit, ← List.append_assoc, List.foldl_cons]
    exact ih hns (h.visit hn)

end Bits

section Numbers

variable {names : Int → Option (List Char)} {lo : Int}

/-- The names of flags are those that were declared, however far the table is filled. -/
theorem flagNames_filled {map : ValueNameMap} {i : Int}
    (h : ∀ j, map.lookup j = filledName names lo i j) (hlo : int32Min < lo) (k : Int) :
    flagNames map.lookup k (List.range 32) = flagNames names k (List.range 32) := by
  refine List.filterMap_congr ?_
  intro n hn
  have hflag : map.lookup (flag n) = names (flag n) := by
    rw [h, filledName, if_neg, Option.or_none]
    rintro ⟨hlow, -, hsingle⟩
    exact flag_ne (Int.lt_of_lt_of_le hlo hlow) hsingle (List.mem_range.1 hn) rfl
  simp only [hflag]

theorem filledName_outside {hi i : Int} (h : lo ≤ i → hi ≤ i) :
    filledName names lo hi i = names i := by
  rw [filledName, if_neg, Option.or_none]
  rintro ⟨hlow, hless, -⟩
  exact absurd (h hlow) (Int.not_le.2 hless)

theorem filledName_succ {i j : Int} (hne : j ≠ i) :
    filledName names lo (i + 1) j = filledName names lo i j := by
  classical
  have hless : j < i + 1 ↔ j < i := by omega
  rw [filledName, filledName]
  congr 1
  exact if_congr (by rw [hless]) rfl rfl

/-- A flag, and a value that was declared, keep their names. -/
theorem filledName_kept {i : Int} (h : Single i ∨ (names i).isSome = true) :
    filledName names lo (i + 1) i = names i := by
  rw [filledName]
  rcases h with hsingle | hsome
  · rw [if_neg fun hfilled => hfilled.2.2 hsingle, Option.or_none]
  · obtain ⟨name, hname⟩ := Option.isSome_iff_exists.1 hsome
    rw [hname, Option.some_or]

theorem fillValue_filled {map : ValueNameMap} {i : Int} (hlo : int32Min < lo) (hi : lo ≤ i)
    (hmax : i ≤ int32Max) (h : ∀ j, map.lookup j = filledName names lo i j) :
    ∃ map', fillValue map i = some map' ∧ ∀ j, map'.lookup j = filledName names lo (i + 1) j := by
  have hmin : int32Min < i := Int.lt_of_lt_of_le hlo hi
  obtain ⟨skipped, hskipped, hsingle⟩ := isPowerOfTwoOrZero_eq hmin hmax
  have hhere : map.lookup i = names i := (h i).trans (filledName_outside fun _ => Int.le_refl i)
  have hunchanged (hkept : Single i ∨ (names i).isSome = true) (j : Int) :
      map.lookup j = filledName names lo (i + 1) j := by
    by_cases hj : j = i
    · rw [hj, filledName_kept hkept, hhere]
    · rw [filledName_succ hj, h]
  rw [fillValue, hskipped, Option.map_some]
  refine ⟨_, rfl, ?_⟩
  by_cases hs : skipped = true
  · rw [if_pos hs]
    exact hunchanged (Or.inl (hsingle.1 hs))
  · have hnot : ¬ Single i := fun hi => hs (hsingle.2 hi)
    rw [if_neg hs]
    by_cases hmem : i ∈ map
    · rw [if_pos hmem]
      exact hunchanged (Or.inr (by rwa [← hhere, AList.lookup_isSome]))
    · have hnone : map.lookup i = none := AList.lookup_eq_none.2 hmem
      have hstart : Named map i [] { map } := ⟨by rw [hnone]; rfl, fun _ _ => rfl, by simp⟩
      have hrun := hstart.run fun n (hn : n ∈ List.range 32) =>
        flag_ne hmin hnot (List.mem_range.1 hn)
      rw [if_neg hmem]
      intro j
      by_cases hj : j = i
      · rw [hj, hrun.here, List.nil_append, flagNames_filled h hlo, filledName, ← hhere, hnone,
          Option.none_or, if_pos ⟨hi, Int.lt_succ i, hnot⟩]
      · rw [hrun.elsewhere j hj, filledName_succ hj, h]

theorem fillFrom_filled {count : Nat} {map : ValueNameMap} {i : Int} (hlo : int32Min < lo)
    (hi : lo ≤ i) (hmax : i + count ≤ int32Max + 1)
    (h : ∀ j, map.lookup j = filledName names lo i j) :
    ∃ map', fillFrom count i map = some map' ∧
      ∀ j, map'.lookup j = filledName names lo (i + count) j := by
  induction count generalizing i map with
  | zero => exact ⟨map, rfl, by simpa using h⟩
  | succ count ih =>
    obtain ⟨next, hnext, hfilled⟩ := fillValue_filled hlo hi (by omega) h
    obtain ⟨map', hrest, hall⟩ := ih (by omega) (by omega) hfilled
    refine ⟨map', by rw [fillFrom, hnext, Option.bind_some, hrest], ?_⟩
    intro j
    rw [hall, Int.add_assoc, Int.add_comm 1]
    rfl

end Numbers

/-! ## The bounds of the loop -/

/-- The least value of entries, or the one to start with. -/
def least (start : Int) (entries : List (List Char × Int)) : Int :=
  (entries.map Prod.snd).foldl min start

/-- The counter behind entries. -/
def counter (start : Int) (entries : List (List Char × Int)) : Int :=
  entries.foldl (fun _ entry => entry.2 + 1) start

/-- What a pass over the cells ends with, and when it does. -/
theorem walk_end {σ : Type} (callback : σ → List Char → Int → σ) (texts : List (List Char))
    (w : Walk σ) :
    texts.foldlM (fun (w : Walk σ) text => w.visit callback (removeWhitespaces text)) w =
      if ∀ entry ∈ keptFrom w.currentValue texts, entry.2 ≠ int32Max then
        some {
          built := (keptFrom w.currentValue texts).foldl
            (fun built entry => callback built entry.1 entry.2) w.built
          minValue := least w.minValue (keptFrom w.currentValue texts)
          currentValue := counter w.currentValue (keptFrom w.currentValue texts) }
      else none := by
  induction texts generalizing w with
  | nil =>
    rw [keptFrom, if_pos fun _ hmem => absurd hmem List.not_mem_nil]
    rfl
  | cons text texts ih =>
    rw [List.foldlM_cons, Walk.visit_eq, keptFrom]
    cases hentry : entryOf (removeWhitespaces text) w.currentValue with
    | none => exact ih w
    | some entry =>
      simp only [Walk.call, List.forall_mem_cons]
      by_cases hvalue : entry.2 = int32Max
      · rw [if_pos hvalue, if_neg fun h => h.1 hvalue]
        rfl
      · rw [if_neg hvalue]
        refine (ih _).trans ?_
        simp only [ne_eq, hvalue, not_false_eq_true, true_and]
        rfl

theorem le_foldl_min {bound start : Int} {values : List Int} (hstart : bound ≤ start)
    (hvalues : ∀ value ∈ values, bound ≤ value) : bound ≤ values.foldl min start := by
  induction values generalizing start with
  | nil => exact hstart
  | cons value values ih =>
    obtain ⟨hvalue, hrest⟩ := List.forall_mem_cons.1 hvalues
    exact ih (Int.le_min.2 ⟨hstart, hvalue⟩) hrest

theorem convert_range {str : List Char} {value : Int} (h : convert str = some value) :
    int32Min ≤ value ∧ value ≤ int32Max := by
  unfold convert at h
  simp only at h
  split at h
  · cases h
  · rw [toInt32, Option.ite_none_right_eq_some] at h
    obtain ⟨hrange, hvalue⟩ := h
    exact Option.some.inj hvalue ▸ hrange

theorem keptFrom_ge {texts : List (List Char)} {currentValue : Int} (h : int32Min ≤ currentValue) :
    ∀ entry ∈ keptFrom currentValue texts, int32Min ≤ entry.2 := by
  induction texts generalizing currentValue with
  | nil => exact fun _ hmem => absurd hmem List.not_mem_nil
  | cons text texts ih =>
    rw [keptFrom]
    cases hentry : entryOf (removeWhitespaces text) currentValue with
    | none => exact ih h
    | some entry =>
      have hvalue : int32Min ≤ entry.2 := by
        unfold entryOf at hentry
        split at hentry
        · cases hentry
          exact h
        · obtain ⟨value, hconvert, rfl⟩ := Option.map_eq_some_iff.1 hentry
          exact (convert_range hconvert).1
      exact List.forall_mem_cons.2 ⟨hvalue, ih (by omega)⟩

/-! ## The filled table -/

/-- The name of the first entry with the value. -/
def firstName (text : List Char) (value : Int) : Option (List Char) :=
  ((kept text).find? fun entry => entry.2 == value).map Prod.fst

/-- The table before it is filled. -/
def declaredNames (text : List Char) : ValueNameMap :=
  (kept text).foldl (fun map entry =>
    if entry.2 ∈ map then map else map.insert entry.2 entry.1) ∅

theorem lookup_declaredNames (text : List Char) (value : Int) :
    (declaredNames text).lookup value = firstName text value := by
  refine Option.ext fun name => ?_
  rw [declaredNames, lookup_foldl_first, firstName, Option.map_eq_some_iff]
  constructor
  · rintro (hempty | ⟨-, hfind⟩)
    · cases hempty
    · exact ⟨_, hfind, rfl⟩
  · rintro ⟨entry, hfind, rfl⟩
    have hvalue : entry.2 = value := by simpa using List.find?_some hfind
    exact Or.inr ⟨List.not_mem_nil, by rw [hfind, ← hvalue]⟩

theorem filledName_toNat (names : Int → Option (List Char)) (lo hi i : Int) :
    filledName names lo (lo + (hi - lo).toNat) i = filledName names lo hi i := by
  classical
  have hless : lo ≤ i ∧ i < lo + (hi - lo).toNat ∧ ¬ Single i ↔ lo ≤ i ∧ i < hi ∧ ¬ Single i := by
    rw [and_congr_right_iff]
    intro hlow
    rw [and_congr_left_iff]
    omega
  rw [filledName, filledName]
  congr 1
  exact if_congr hless rfl rfl

/-- The loop that declares the names. -/
theorem walk_declared (text : List Char) :
    (cells text).foldlM (fun (w : Walk ValueNameMap) cell => w.visit
        (fun map entry value => if value ∈ map then map else map.insert value entry)
        (removeWhitespaces cell)) { built := ∅ } =
      if ∀ entry ∈ kept text, entry.2 ≠ int32Max then
        some {
          built := declaredNames text
          minValue := least int32Max (kept text)
          currentValue := counter 0 (kept text) }
      else none := walk_end _ _ _

theorem makeFilledMap_eq (text : List Char) :
    makeFilledMap text =
      if ∀ entry ∈ kept text, entry.2 ≠ int32Max then
        (toInt32 (2 * counter 0 (kept text))).bind fun maxValue =>
          fillFrom (maxValue - least int32Max (kept text)).toNat (least int32Max (kept text))
            (declaredNames text)
      else none := by
  rw [makeFilledMap, doForEachEntry_eq _ (Nat.le_refl _), walk_declared, Int.mul_comm]
  by_cases h : ∀ entry ∈ kept text, entry.2 ≠ int32Max
  · rw [if_pos h, if_pos h]
    rfl
  · rw [if_neg h, if_neg h]
    rfl

theorem fillFrom_min (count : Nat) (map : ValueNameMap) :
    fillFrom (count + 1) int32Min map = none := by
  have hnone : isPowerOfTwoOrZero int32Min = none := by decide
  rw [fillFrom, fillValue, hnone]
  rfl

theorem fillFrom_declared (text : List Char) {lo hi : Int} (hmin : int32Min < lo ∨ hi ≤ lo)
    (hmax : hi ≤ int32Max) :
    ∃ map, fillFrom (hi - lo).toNat lo (declaredNames text) = some map ∧
      ∀ value, map.lookup value = filledName (firstName text) lo hi value := by
  have hstart (value : Int) :
      (declaredNames text).lookup value = filledName (firstName text) lo lo value :=
    (lookup_declaredNames text value).trans (filledName_outside id).symm
  by_cases hempty : hi ≤ lo
  · have hzero : (hi - lo).toNat = 0 := by omega
    refine ⟨declaredNames text, by rw [hzero]; rfl, ?_⟩
    intro value
    rw [← filledName_toNat, hzero]
    simpa using hstart value
  · have hcount : lo + (hi - lo).toNat ≤ int32Max + 1 := by omega
    obtain ⟨map, hmap, hall⟩ := fillFrom_filled (by omega) (Int.le_refl lo) hcount hstart
    exact ⟨map, hmap, fun value => by rw [hall, filledName_toNat]⟩

/-- **The filled table.** A value has the name of the first entry with it; a value that no entry
has, from the least value up to below the doubled counter, has the names of its flags with bars
between them unless it is zero or a flag itself; and no other value has a name. There is no table
exactly if the counter or its double overflows, or if the loop starts at the least `int32_t`. -/
theorem filled_table (text : List Char) :
    (∀ map, makeFilledMap text = some map → ∀ value, map.lookup value =
      filledName (firstName text) (least int32Max (kept text)) (2 * counter 0 (kept text)) value) ∧
    (makeFilledMap text = none ↔
      (∃ entry ∈ kept text, entry.2 = int32Max) ∨
      ¬ (int32Min ≤ 2 * counter 0 (kept text) ∧ 2 * counter 0 (kept text) ≤ int32Max) ∨
      (least int32Max (kept text) = int32Min ∧ int32Min < 2 * counter 0 (kept text))) := by
  rw [makeFilledMap_eq]
  by_cases hcounter : ∀ entry ∈ kept text, entry.2 ≠ int32Max
  · have hlow : int32Min ≤ least int32Max (kept text) :=
      le_foldl_min (by decide) (List.forall_mem_map.2 (keptFrom_ge (by decide)))
    have hnot : ¬ ∃ entry ∈ kept text, entry.2 = int32Max :=
      fun ⟨entry, hmem, hmax⟩ => hcounter entry hmem hmax
    rw [if_pos hcounter, or_iff_right hnot]
    generalize least int32Max (kept text) = lo at *
    generalize 2 * counter 0 (kept text) = hi at *
    by_cases hrange : int32Min ≤ hi ∧ hi ≤ int32Max
    · rw [toInt32, if_pos hrange, Option.bind_some, or_iff_right (not_not.2 hrange)]
      by_cases hmin : lo = int32Min ∧ int32Min < hi
      · obtain ⟨rfl, hless⟩ := hmin
        obtain ⟨count, hcount⟩ := Nat.exists_eq_succ_of_ne_zero
          (n := (hi - int32Min).toNat) (by omega)
        rw [hcount, fillFrom_min]
        exact ⟨nofun, iff_of_true rfl ⟨rfl, hless⟩⟩
      · have hstarts : int32Min < lo ∨ hi ≤ lo := by omega
        obtain ⟨map, hmap, hall⟩ := fillFrom_declared text hstarts hrange.2
        rw [hmap]
        refine ⟨?_, iff_of_false (Option.some_ne_none map) hmin⟩
        intro map' hmap'
        cases hmap'
        exact hall
    · rw [toInt32, if_neg hrange]
      exact ⟨nofun, iff_of_true rfl (Or.inl hrange)⟩
  · rw [if_neg hcounter]
    have hsome : ∃ entry ∈ kept text, entry.2 = int32Max := by
      by_contra hnot
      exact hcounter fun entry hmem hmax => hnot ⟨entry, hmem, hmax⟩
    exact ⟨nofun, iff_of_true rfl (Or.inl hsome)⟩

-- three is a combination, six is one with a flag that has no name, and four is a flag itself
example :
    (makeFilledMap "Read = 1, Write = 2, Other = 5,".toList).map (fun map =>
      [3, 4, 6, 7, 11].map map.lookup) =
      some [some "Read | Write".toList, none, some "Write".toList, some "Read | Write".toList,
        some "Read | Write".toList] := by
  decide

/-! ## Names of objects -/

section Objects

variable {u : IntegerType}

/-- `static_cast<int32_t>(value_)`. -/
def key (value : BitVec u.width) : Int := (u.convert 32 value).toInt

/-- `to_string()` of an object with the value, and the map behind the call. -/
def toString (map : ValueNameMap) (value : BitVec u.width) : List Char × ValueNameMap :=
  match map.lookup (key value) with
  | some name => (name, map)
  | none => ([], map.insert (key value) [])

/-- The answers to objects one after another. -/
def toStrings (map : ValueNameMap) : List (BitVec u.width) → List (List Char) × ValueNameMap
  | [] => ([], map)
  | value :: values =>
    let (name, map) := toString map value
    let (names, map) := toStrings map values
    (name :: names, map)

/-- Behind calls for these keys the map has the declared names, and empty ones for other keys. -/
def Asked (names : Int → Option (List Char)) (keys : List Int) (map : ValueNameMap) : Prop :=
  ∀ i, map.lookup i = (names i).or (if i ∈ keys then some [] else none)

theorem toString_spec {names : Int → Option (List Char)} {keys : List Int} {map : ValueNameMap}
    (h : Asked names keys map) (value : BitVec u.width) :
    (toString map value).1 = (names (key value)).getD [] ∧
      Asked names (keys ++ [key value]) (toString map value).2 := by
  have hfound := h (key value)
  have hother (i : Int) (hne : i ≠ key value) : i ∈ keys ++ [key value] ↔ i ∈ keys := by
    simp [hne]
  rw [toString]
  cases hlookup : map.lookup (key value) with
  | some name =>
    rw [hlookup] at hfound
    refine ⟨?_, ?_⟩
    · cases hname : names (key value) with
      | some first =>
        rw [hname, Option.some_or] at hfound
        exact Option.some.inj hfound
      | none =>
        rw [hname, Option.none_or] at hfound
        split at hfound
        · exact Option.some.inj hfound
        · cases hfound
    · intro i
      by_cases hi : i = key value
      · subst hi
        simp only [hlookup, hfound]
        by_cases hasked : key value ∈ keys
        · simp [hasked]
        · rw [if_neg hasked, Option.or_none] at hfound
          simp [← hfound]
      · simp only [hother i hi]
        exact h i
  | none =>
    rw [hlookup, eq_comm, Option.or_eq_none_iff] at hfound
    refine ⟨by rw [hfound.1]; rfl, ?_⟩
    intro i
    by_cases hi : i = key value
    · subst hi
      simp [hfound.1]
    · simp only [hother i hi]
      rw [AList.lookup_insert_ne hi]
      exact h i

theorem toStrings_spec {names : Int → Option (List Char)} {keys : List Int} {map : ValueNameMap}
    (h : Asked names keys map) (values : List (BitVec u.width)) :
    (toStrings map values).1 = values.map (fun value => (names (key value)).getD []) ∧
      Asked names (keys ++ values.map key) (toStrings map values).2 := by
  induction values generalizing keys map with
  | nil => exact ⟨rfl, by simpa [toStrings] using h⟩
  | cons value values ih =>
    obtain ⟨hname, hasked⟩ := toString_spec h value
    obtain ⟨hnames, hall⟩ := ih hasked
    rw [List.append_assoc, List.singleton_append] at hall
    refine ⟨?_, hall⟩
    rw [List.map_cons, ← hname, ← hnames]
    rfl

theorem makeValueNameMap_eq {text : List Char} {map : ValueNameMap}
    (h : makeValueNameMap text = some map) : map = declaredNames text := by
  rw [makeValueNameMap, doForEachEntry_eq _ (Nat.le_refl _), walk_declared,
    Option.map_eq_some_iff] at h
  obtain ⟨w, hw, rfl⟩ := h
  rw [Option.ite_none_right_eq_some] at hw
  cases hw.2
  rfl

/-- **Names of objects.** Whatever objects are asked for their names one after another, each answers
with the name of the first entry with its value as an `int32_t`, or with nothing if no entry has
it; and the table is left with the declared names and an empty name for each other value asked
for. -/
theorem to_string_answers {text : List Char} {map : ValueNameMap}
    (h : makeValueNameMap text = some map) (values : List (BitVec u.width)) :
    (toStrings map values).1 =
        values.map (fun value => (firstName text (key value)).getD []) ∧
      ∀ i, (toStrings map values).2.lookup i =
        (firstName text i).or (if i ∈ values.map key then some [] else none) := by
  rw [makeValueNameMap_eq h]
  have hstart : Asked (firstName text) [] (declaredNames text) := by
    intro i
    rw [lookup_declaredNames, if_neg List.not_mem_nil, Option.or_none]
  exact toStrings_spec hstart values

end Objects

-- the upper half of a wide value is not looked at
theorem to_string_answers_sample :
    ∃ map, makeValueNameMap "Red, Blue = 2, Navy = 2,".toList = some map ∧
      (toStrings (u := { signed := false, width := 64 }) map [7, 2, 7, 4294967298]).1 =
        [[], "Blue".toList, [], "Blue".toList] := by
  obtain ⟨map, hmap⟩ := Option.isSome_iff_exists.1
    (show (makeValueNameMap "Red, Blue = 2, Navy = 2,".toList).isSome = true by decide)
  refine ⟨map, hmap, ?_⟩
  rw [(to_string_answers (u := { signed := false, width := 64 }) hmap [7, 2, 7, 4294967298]).1]
  decide

end KeycapRoot.Utility.Enum
