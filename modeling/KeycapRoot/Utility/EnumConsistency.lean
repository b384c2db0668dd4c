import KeycapRoot.Utility.EnumTables

/-!
# Consistency of the tables

Whatever the text of an enum is, the three passes over it call back with the same entries (`kept`).
So if their names are distinct, their values fit and the counter does not overflow, the tables are
consistent: the vector lists the keys of one map and the values of the other, and the name of a
value is the one of the first entry with it (`tables_consistent`).
-/

namespace KeycapRoot.Utility.Enum

/-! ## The entries of a text -/

/-- The name and the value of an entry, unless it is left out. -/
def entryOf (entry : List Char) (currentValue : Int) : Option (List Char × Int) :=
  match extractValue entry with
  | (name, none) => some (name, currentValue)
  | (name, some value) => (convert value).map fun intValue => (name, intValue)

/-- The entries of the cells that are not left out. -/
def keptFrom : Int → List (List Char) → List (List Char × Int)
  | _, [] => []
  | currentValue, cell :: rest =>
    match entryOf (removeWhitespaces cell) currentValue with
    | some entry => entry :: keptFrom (entry.2 + 1) rest
    | none => keptFrom currentValue rest

/-- The entries of a text that are not left out. -/
def kept (text : List Char) : List (List Char × Int) := keptFrom 0 (cells text)

section Passes

variable {σ : Type} (callback : σ → List Char → Int → σ)

theorem Walk.visit_eq (w : Walk σ) (entry : List Char) :
    w.visit callback entry =
      match entryOf entry w.currentValue with
      | some (name, value) => w.call callback name value
      | none => some w := by
  unfold Walk.visit entryOf
  rcases extractValue entry with ⟨name, none | value⟩
  · rfl
  · simp only
    cases convert value <;> rfl

/-- A pass over the cells calls back with the entries that are not left out. -/
theorem walk_kept {texts : List (List Char)} {w : Walk σ}
    (hcounter : ∀ entry ∈ keptFrom w.currentValue texts, entry.2 ≠ int32Max) :
    (texts.foldlM (fun (w : Walk σ) text => w.visit callback (removeWhitespaces text)) w).map
        Walk.built =
      some ((keptFrom w.currentValue texts).foldl
        (fun built entry => callback built entry.1 entry.2) w.built) := by
  induction texts generalizing w with
  | nil => rfl
  | cons text texts ih =>
    rw [List.foldlM_cons, Walk.visit_eq]
    rw [keptFrom] at hcounter ⊢
    cases hentry : entryOf (removeWhitespaces text) w.currentValue with
    | none =>
      rw [hentry] at hcounter
      exact ih hcounter
    | some entry =>
      rw [hentry] at hcounter
      obtain ⟨hvalue, hrest⟩ := List.forall_mem_cons.1 hcounter
      simp only [Walk.call, if_neg hvalue, bind, Option.bind_some]
      exact ih hrest

theorem pass_kept {text : List Char} (hcounter : ∀ entry ∈ kept text, entry.2 ≠ int32Max)
    (start : σ) :
    (doForEachEntry callback text.length text { built := start }).map Walk.built =
      some ((kept text).foldl (fun built entry => callback built entry.1 entry.2) start) := by
  rw [doForEachEntry_eq callback (Nat.le_refl _)]
  exact walk_kept callback (w := { built := start }) hcounter

end Passes

/-! ## Consistency -/

/-- The tables list the same values, and the name of a value is the one of the first entry with it
and stands for the value. -/
structure TablesConsistent (u : IntegerType) (text : List Char) (nameValue : NameValueMap)
    (valueName : ValueNameMap) (vector : List Int) : Prop where
  nameValue_built : makeNameValueMap text = some nameValue
  valueName_built : makeValueNameMap text = some valueName
  vector_built : makeVector u text = some vector
  nodup : vector.Nodup
  keys : ∀ value, value ∈ vector ↔ value ∈ valueName
  values : ∀ value, value ∈ vector ↔ ∃ name, nameValue.lookup name = some value
  first : ∀ value name, valueName.lookup value = some name →
    (kept text).find? (fun entry => entry.2 == value) = some (name, value)
  back : ∀ value name, valueName.lookup value = some name → nameValue.lookup name = some value

theorem nodup_eraseDups (values : List Int) : values.eraseDups.Nodup := by
  induction h : values.length using Nat.strongRecOn generalizing values with
  | _ n ih =>
    cases values with
    | nil => exact List.nodup_nil
    | cons value values =>
      rw [List.eraseDups_cons, List.nodup_cons]
      have hshort : (values.filter fun other => !other == value).length < n := by
        rw [← h, List.length_cons]
        exact Nat.lt_succ_of_le (List.length_filter_le _ _)
      refine ⟨?_, ih _ hshort _ rfl⟩
      simp

/-- **Consistency.** The tables of any text are consistent if the names of the entries that are not
left out are distinct, their values fit the type and the counter does not pass its greatest
value. -/
theorem tables_consistent {u : IntegerType} {text : List Char}
    (hnames : ((kept text).map Prod.fst).Nodup) (hfits : ∀ entry ∈ kept text, u.Represents entry.2)
    (hcounter : ∀ entry ∈ kept text, entry.2 ≠ int32Max) :
    ∃ nameValue valueName vector, TablesConsistent u text nameValue valueName vector := by
  have hlookup (name : List Char) (value : Int) :
      ((kept text).foldl (fun map entry => map.insert entry.1 entry.2)
        (∅ : NameValueMap)).lookup name = some value ↔ (name, value) ∈ kept text := by
    rw [lookup_foldl_insert hnames]
    simp
  have hfirst (value : Int) (name : List Char) :
      ((kept text).foldl (fun map entry =>
        if entry.2 ∈ map then map else map.insert entry.2 entry.1)
          (∅ : ValueNameMap)).lookup value = some name ↔
        (kept text).find? (fun entry => entry.2 == value) = some (name, value) := by
    rw [lookup_foldl_first]
    simp
  have hmem (value : Int) :
      value ∈ ((kept text).map Prod.snd).eraseDups ↔ ∃ name, (name, value) ∈ kept text := by
    rw [List.mem_eraseDups, List.mem_map]
    simp
  refine ⟨_, _, ((kept text).map Prod.snd).eraseDups, pass_kept _ hcounter _,
    pass_kept _ hcounter _, ?_, nodup_eraseDups _, ?_, ?_, ?_, ?_⟩
  · unfold makeVector
    rw [pass_kept _ hcounter, foldl_distinct hfits]
    simp
  · intro value
    rw [hmem, ← AList.lookup_isSome, Option.isSome_iff_exists]
    simp only [hfirst]
    constructor
    · rintro ⟨name, hkept⟩
      have hsome : ((kept text).find? fun entry => entry.2 == value).isSome :=
        List.find?_isSome.2 ⟨(name, value), hkept, by simp⟩
      obtain ⟨entry, hentry⟩ := Option.isSome_iff_exists.1 hsome
      have hvalue : entry.2 = value := by simpa using List.find?_some hentry
      exact ⟨entry.1, by rw [hentry, ← hvalue]⟩
    · rintro ⟨name, hfind⟩
      exact ⟨name, List.mem_of_find?_eq_some hfind⟩
  · intro value
    simp only [hmem, hlookup]
  · intro value name hname
    exact (hfirst value name).1 hname
  · intro value name hname
    exact (hlookup name value).2 (List.mem_of_find?_eq_some ((hfirst value name).1 hname))

-- the second entry is left out
theorem tables_consistent_sample :
    kept "Red, Green = red, Blue = 5, Navy = 5,".toList =
        [("Red".toList, 0), ("Blue".toList, 5), ("Navy".toList, 5)] ∧
      ∃ nameValue valueName vector, TablesConsistent { signed := false, width := 8 }
        "Red, Green = red, Blue = 5, Navy = 5,".toList nameValue valueName vector := by
  have hkept : kept "Red, Green = red, Blue = 5, Navy = 5,".toList =
      [("Red".toList, 0), ("Blue".toList, 5), ("Navy".toList, 5)] := by
    decide
  refine ⟨hkept, tables_consistent ?_ ?_ ?_⟩
  · rw [hkept]
    decide
  · rw [hkept]
    decide
  · rw [hkept]
    decide

end KeycapRoot.Utility.Enum
