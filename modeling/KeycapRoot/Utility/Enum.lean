import Mathlib.Algebra.Group.Int.Defs
import Mathlib.Algebra.Group.Nat.Defs
import Mathlib.Data.List.AList
import Mathlib.Data.List.TakeWhile

/-!
# Reflection of enums

`keycap_enum` builds three tables from the text of an enumerator list. The text is cut at its commas;
an entry with a value sets the running counter to it if the value can be read as a decimal number,
and is left out otherwise; and each entry that is not left out has the value of the counter.
-/

namespace KeycapRoot.Utility.Enum

def int32Min : Int := -2147483648
def int32Max : Int := 2147483647

def removeWhitespaces (str : List Char) : List Char := str.filter fun c => c != ' ' && c != '\t'

/-- `std::isspace` in the "C" locale. -/
def isSpace (c : Char) : Bool := c == ' ' || (9 ≤ c.toNat && c.toNat ≤ 13)

def decimalValue (digits : List Char) : Nat := digits.foldl (fun n c => 10 * n + (c.toNat - 48)) 0

/-- A number that fits an `int32_t`. -/
def toInt32 (value : Int) : Option Int :=
  if int32Min ≤ value ∧ value ≤ int32Max then some value else none

/-- The sign of a number, and what is behind it. -/
def sign : List Char → Bool × List Char
  | '-' :: rest => (true, rest)
  | '+' :: rest => (false, rest)
  | str => (false, str)

/-- `ss >> outInt` of a stream that holds the string: a sign and decimal digits, and what comes
behind them is not read. -/
def convert (str : List Char) : Option Int :=
  let (negative, str) := sign (str.dropWhile isSpace)
  match str.takeWhile Char.isDigit with
  | [] => none
  | digits => toInt32 (if negative then -decimalValue digits else decimalValue digits)

/-- The entry up to the next comma without its white space, and the values behind the comma. -/
def extractEntry (values : List Char) : List Char × List Char :=
  match values.dropWhile (· != ',') with
  | _ :: rest => (removeWhitespaces (values.takeWhile (· != ',')), rest)
  | [] => (removeWhitespaces values, [])

/-- What is left of the entry, and the value behind its equals sign. -/
def extractValue (values : List Char) : List Char × Option (List Char) :=
  match values.dropWhile (· != '=') with
  | _ :: ret => (values.takeWhile (· != '='), some ret)
  | [] => (values, none)

/-- Where the loop of `doForEachEntry` is: what the callback has built, and its two variables. -/
structure Walk (σ : Type) where
  built : σ
  minValue : Int := int32Max
  currentValue : Int := 0

section Loop

variable {σ : Type} (callback : σ → List Char → Int → σ)

/-- The callback is called, and the counter goes on. It must not overflow. -/
def Walk.call (w : Walk σ) (entry : List Char) (value : Int) : Option (Walk σ) :=
  if value = int32Max then none
  else some {
    built := callback w.built entry value
    minValue := min w.minValue value
    currentValue := value + 1 }

/-- The body of the loop for an entry. Every caller passes false for `fix`. -/
def Walk.visit (w : Walk σ) (entry : List Char) : Option (Walk σ) :=
  match extractValue entry with
  | (entry, none) => w.call callback entry w.currentValue
  | (entry, some value) =>
    match convert value with
    | some intValue => w.call callback entry intValue
    | none => some w

/-- `doForEachEntry(values, map, false, callback)`, undefined where the counter overflows. The loop
ends: each round takes a character at least. -/
def doForEachEntry : Nat → List Char → Walk σ → Option (Walk σ)
  | 0, _, w => some w
  | fuel + 1, values, w =>
    if values = [] then some w
    else
      let (entry, rest) := extractEntry values
      (w.visit callback entry).bind fun w => doForEachEntry fuel rest w

end Loop

abbrev NameValueMap := AList fun _ : List Char => Int
abbrev ValueNameMap := AList fun _ : Int => List Char

def makeNameValueMap (values : List Char) : Option NameValueMap :=
  (doForEachEntry (fun map entry value => map.insert entry value) values.length values
    { built := (∅ : NameValueMap) }).map Walk.built

/-- `makeValueNameMap(values, lookup, false)`. -/
def makeValueNameMap (values : List Char) : Option ValueNameMap :=
  (doForEachEntry (fun map entry value => if value ∈ map then map else map.insert value entry)
    values.length values { built := (∅ : ValueNameMap) }).map Walk.built

structure IntegerType where
  signed : Bool
  width : Nat
  deriving DecidableEq, Repr

/-- `static_cast` to the type. -/
def IntegerType.cast (u : IntegerType) (value : Int) : Int :=
  if u.signed then Int.bmod value (2 ^ u.width) else value % 2 ^ u.width

/-- `makeVector<ElementType>(values, lookup, valueLookup)`, for an enum over the integer type. -/
def makeVector (u : IntegerType) (values : List Char) : Option (List Int) :=
  (doForEachEntry (fun vector _ value =>
      let element := u.cast value
      if element ∈ vector then vector else vector ++ [element])
    values.length values { built := ([] : List Int) }).map Walk.built

/-! ## The loop as a walk over the cells -/

/-- The text between the commas. A comma at the end has nothing behind it. -/
def cells : List Char → List (List Char)
  | [] => []
  | c :: cs =>
    if c = ',' then [] :: cells cs
    else match cells cs with
      | [] => [[c]]
      | cell :: rest => (c :: cell) :: rest

theorem cells_append_comma {cell : List Char} (h : ',' ∉ cell) (rest : List Char) :
    cells (cell ++ ',' :: rest) = cell :: cells rest := by
  induction cell with
  | nil => rfl
  | cons c cell ih =>
    rw [List.mem_cons, not_or] at h
    rw [List.cons_append, cells, if_neg (Ne.symm h.1), ih h.2]

theorem cells_of_no_comma {cell : List Char} (h : ',' ∉ cell) (hne : cell ≠ []) :
    cells cell = [cell] := by
  induction cell with
  | nil => exact absurd rfl hne
  | cons c cell ih =>
    rw [List.mem_cons, not_or] at h
    rw [cells, if_neg (Ne.symm h.1)]
    cases cell with
    | nil => rfl
    | cons d cell => rw [ih h.2 (List.cons_ne_nil d cell)]

/-- `extractEntry` takes the first cell. -/
theorem extractEntry_eq {values : List Char} (hne : values ≠ []) :
    ∃ cell rest, extractEntry values = (removeWhitespaces cell, rest) ∧
      cells values = cell :: cells rest ∧ rest.length < values.length := by
  have hfront : ',' ∉ values.takeWhile (· != ',') := by
    intro hmem
    have hcomma := List.mem_takeWhile_imp hmem
    exact absurd hcomma (by decide)
  have hsplit := List.takeWhile_append_dropWhile (p := (· != ',')) (l := values)
  unfold extractEntry
  cases hdrop : values.dropWhile (· != ',') with
  | nil =>
    rw [hdrop, List.append_nil] at hsplit
    rw [hsplit] at hfront
    exact ⟨values, [], rfl, cells_of_no_comma hfront hne, List.length_pos_of_ne_nil hne⟩
  | cons c rest =>
    have hc : c = ',' := by
      have hhead := List.head_dropWhile_not (· != ',') (l := values) (by simp [hdrop])
      simpa [hdrop] using hhead
    subst hc
    rw [hdrop] at hsplit
    refine ⟨_, rest, rfl, ?_, ?_⟩
    · conv_lhs => rw [← hsplit]
      exact cells_append_comma hfront rest
    · rw [← hsplit, List.length_append, List.length_cons]
      omega

/-- The loop visits the cells in turn. -/
theorem doForEachEntry_eq {σ : Type} (callback : σ → List Char → Int → σ) {fuel : Nat}
    {values : List Char} (hfuel : values.length ≤ fuel) (w : Walk σ) :
    doForEachEntry callback fuel values w =
      (cells values).foldlM (fun w cell => w.visit callback (removeWhitespaces cell)) w := by
  induction fuel generalizing values w with
  | zero =>
    have hnil : values = [] := List.length_eq_zero_iff.1 (Nat.le_zero.1 hfuel)
    rw [hnil]
    rfl
  | succ fuel ih =>
    unfold doForEachEntry
    by_cases hne : values = []
    · rw [if_pos hne, hne]
      rfl
    · obtain ⟨cell, rest, hentry, hcells, hless⟩ := extractEntry_eq hne
      rw [if_neg hne, hentry, hcells, List.foldlM_cons]
      have hshort : rest.length ≤ fuel := by omega
      have hrest (w : Walk σ) := ih hshort w
      simp only [hrest]
      rfl

end KeycapRoot.Utility.Enum
