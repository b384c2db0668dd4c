import KeycapRoot.Utility.EnumLiterals

/-!
# The tables of an enum

`keycap_enum` reads the values of its enumerators from their text a second time. It reads decimal
numbers only: of a hexadecimal literal it reads the zero in front, of separated digits the first
group, and an enumerator that is set to an earlier one is left out. So the tables are those of the
C++ enum exactly if the list has none of these (`tables_agree_iff_plain`).
-/

namespace KeycapRoot.Utility.Enum

/-! ## Walks -/

/-- What is read as C++ reads it. An enumerator that is set to an earlier one is not. -/
def Enumerator.Plain (e : Enumerator) : Prop :=
  match e.init with
  | none => True
  | some (.literal l) => l.Plain
  | some (.earlier _) => False

/-- The values of the literals are in range. -/
def Enumerator.Fits (p : Platform) (e : Enumerator) : Prop :=
  ∀ l, e.init = some (.literal l) → ∀ value, l.value p = some value →
    int32Min ≤ value ∧ value < int32Max

/-- An enumerator is read as its value exactly if it is plain. -/
theorem Enumerator.read_iff {p : Platform} {e : Enumerator} (h : e.WellFormed) (hfits : e.Fits p)
    {earlier : List (List Char × Int)} {next value : Int}
    (hvalue : initialValue p earlier next e.init = some value) :
    e.read next = some value ↔ e.Plain := by
  unfold Enumerator.read Enumerator.Plain
  cases hinit : e.init with
  | none =>
    rw [hinit] at hvalue
    exact iff_of_true hvalue trivial
  | some init =>
    rw [hinit] at hvalue
    cases init with
    | literal l =>
      exact convert_literal_iff (h.literal l hinit) hvalue (hfits l hinit value hvalue)
    | earlier name =>
      refine iff_of_false ?_ id
      change convert name ≠ some value
      rw [convert_identifier (h.earlier name hinit)]
      exact Option.some_ne_none value |>.symm

section Walks

variable {σ : Type} (callback : σ → List Char → Int → σ)

/-- The walk over enumerators. -/
def walk (es : List Enumerator) (w : Walk σ) : Option (Walk σ) :=
  es.foldlM (fun w e => w.visit callback (removeWhitespaces e.text)) w

theorem doForEachEntry_listText {es : List Enumerator} (h : ∀ e ∈ es, e.WellFormed)
    (trailingComma : Bool) (w : Walk σ) :
    doForEachEntry callback (listText trailingComma es).length (listText trailingComma es) w =
      walk callback es w := by
  rw [doForEachEntry_eq callback (Nat.le_refl _), cells_listText h, List.foldlM_map]
  rfl

theorem walk_cons (e : Enumerator) (es : List Enumerator) (w : Walk σ) :
    walk callback (e :: es) w =
      (w.visit callback (removeWhitespaces e.text)).bind fun w => walk callback es w :=
  List.foldlM_cons

/-- What the values of the enumerators are by their declaration. -/
theorem declare_cons {p : Platform} {u : IntegerType} {earlier values : List (List Char × Int)}
    {next : Int} {e : Enumerator} {es : List Enumerator}
    (h : declare p u earlier next (e :: es) = some values) :
    ∃ value rest, initialValue p earlier next e.init = some value ∧ u.Represents value ∧
      declare p u (earlier ++ [(e.name, value)]) (value + 1) es = some rest ∧
      values = (e.name, value) :: rest := by
  rw [declare] at h
  split at h
  · cases h
  · next value hvalue =>
    split at h
    · next hrepresents =>
      obtain ⟨rest, hrest, rfl⟩ := Option.map_eq_some_iff.1 h
      exact ⟨value, rest, hvalue, hrepresents, hrest, rfl⟩
    · cases h

/-- Over plain enumerators the callback is called with the values of C++. -/
theorem walk_plain {p : Platform} {u : IntegerType} {es : List Enumerator}
    (h : ∀ e ∈ es, e.WellFormed) (hfits : ∀ e ∈ es, e.Fits p) (hplain : ∀ e ∈ es, e.Plain)
    {earlier values : List (List Char × Int)} {w : Walk σ}
    (hdeclare : declare p u earlier w.currentValue es = some values)
    (hmax : ∀ entry ∈ values, entry.2 ≠ int32Max) :
    (walk callback es w).map Walk.built =
      some (values.foldl (fun built entry => callback built entry.1 entry.2) w.built) := by
  induction es generalizing earlier values w with
  | nil =>
    cases hdeclare
    rfl
  | cons e es ih =>
    obtain ⟨he, hes⟩ := List.forall_mem_cons.1 h
    obtain ⟨hfit, hfits⟩ := List.forall_mem_cons.1 hfits
    obtain ⟨heplain, hesplain⟩ := List.forall_mem_cons.1 hplain
    obtain ⟨value, rest, hvalue, -, hrest, rfl⟩ := declare_cons hdeclare
    obtain ⟨hvaluemax, hrestmax⟩ := List.forall_mem_cons.1 hmax
    have hread := (Enumerator.read_iff he hfit hvalue).2 heplain
    rw [walk_cons, Walk.visit_text callback he, hread]
    simp only [Walk.call, if_neg hvaluemax, Option.bind_some]
    exact ih hes hfits hesplain hrest hrestmax

end Walks

/-! ## Tables -/

/-- The tables that are built from the text agree with the values of the enumerators. -/
structure TablesAgree (u : IntegerType) (text : List Char) (values : List (List Char × Int)) :
    Prop where
  nameValue : ∃ map, makeNameValueMap text = some map ∧
    ∀ name value, map.lookup name = some value ↔ (name, value) ∈ values
  valueName : ∃ map, makeValueNameMap text = some map ∧
    ∀ value name, map.lookup value = some name ↔
      values.find? (fun entry => entry.2 == value) = some (name, value)
  vector : makeVector u text = some (values.map Prod.snd).eraseDups

theorem lookup_foldl_insert {values : List (List Char × Int)} (h : (values.map Prod.fst).Nodup)
    (map : NameValueMap) (name : List Char) (value : Int) :
    (values.foldl (fun map entry => map.insert entry.1 entry.2) map).lookup name = some value ↔
      (name, value) ∈ values ∨ (name ∉ values.map Prod.fst ∧ map.lookup name = some value) := by
  induction values generalizing map with
  | nil => simp
  | cons entry values ih =>
    rw [List.map_cons, List.nodup_cons] at h
    rw [List.foldl_cons, ih h.2]
    by_cases hname : name = entry.1
    · subst hname
      rw [AList.lookup_insert, Option.some.injEq]
      constructor
      · rintro (hmem | ⟨-, rfl⟩)
        · exact absurd (List.mem_map_of_mem hmem) h.1
        · exact Or.inl List.mem_cons_self
      · rintro (hmem | ⟨hnot, -⟩)
        · rcases List.mem_cons.1 hmem with hfirst | hrest
          · exact Or.inr ⟨h.1, congrArg Prod.snd hfirst.symm⟩
          · exact Or.inl hrest
        · exact absurd List.mem_cons_self hnot
    · rw [AList.lookup_insert_ne hname, List.mem_cons, List.map_cons, List.mem_cons, not_or]
      have hne : (name, value) ≠ entry := fun heq => hname (congrArg Prod.fst heq)
      simp [hne, hname]

theorem lookup_foldl_first (values : List (List Char × Int)) (map : ValueNameMap) (value : Int)
    (name : List Char) :
    (values.foldl (fun map entry => if entry.2 ∈ map then map else map.insert entry.2 entry.1)
        map).lookup value = some name ↔
      map.lookup value = some name ∨ (value ∉ map ∧
        values.find? (fun entry => entry.2 == value) = some (name, value)) := by
  induction values generalizing map with
  | nil => simp
  | cons entry values ih =>
    rw [List.foldl_cons, ih, List.find?_cons]
    by_cases hvalue : entry.2 = value
    · rw [beq_iff_eq.2 hvalue]
      subst hvalue
      by_cases hmem : entry.2 ∈ map
      · rw [if_pos hmem]
        simp [hmem]
      · rw [if_neg hmem, AList.lookup_insert]
        simp [hmem, AList.lookup_eq_none.2 hmem, Prod.ext_iff]
    · rw [beq_eq_false_iff_ne.2 hvalue]
      by_cases hmem : entry.2 ∈ map
      · rw [if_pos hmem]
      · rw [if_neg hmem, AList.lookup_insert_ne (Ne.symm hvalue), AList.mem_insert]
        simp [Ne.symm hvalue]

theorem foldl_distinct {u : IntegerType} {values : List (List Char × Int)}
    (h : ∀ entry ∈ values, u.Represents entry.2) (vector : List Int) :
    values.foldl (fun vector entry =>
        if u.cast entry.2 ∈ vector then vector else vector ++ [u.cast entry.2]) vector =
      vector ++ ((values.map Prod.snd).filter (· ∉ vector)).eraseDups := by
  induction values generalizing vector with
  | nil => simp
  | cons entry values ih =>
    obtain ⟨hentry, hrest⟩ := List.forall_mem_cons.1 h
    rw [List.foldl_cons, ih hrest, hentry, List.map_cons]
    by_cases hmem : entry.2 ∈ vector
    · rw [if_pos hmem, List.filter_cons_of_neg (by simpa using hmem)]
    · have hsame (v : Int) : decide (v ∉ vector ++ [entry.2]) =
          (!(v == entry.2) && decide (v ∉ vector)) := by
        rw [Bool.eq_iff_iff]
        simp [and_comm]
      rw [if_neg hmem, List.filter_cons_of_pos (by simpa using hmem), List.eraseDups_cons,
        List.append_assoc, List.singleton_append, List.filter_filter]
      simp only [hsame]

/-! ## Where the tables agree -/

theorem names_of_declare {p : Platform} {u : IntegerType} {es : List Enumerator}
    {earlier values : List (List Char × Int)} {next : Int}
    (h : declare p u earlier next es = some values) :
    values.map Prod.fst = es.map Enumerator.name ∧ ∀ entry ∈ values, u.Represents entry.2 := by
  induction es generalizing earlier next values with
  | nil =>
    cases h
    exact ⟨rfl, fun _ hmem => by cases hmem⟩
  | cons e es ih =>
    obtain ⟨value, rest, -, hrepresents, hrest, rfl⟩ := declare_cons h
    obtain ⟨hnames, hrests⟩ := ih hrest
    rw [List.map_cons, List.map_cons, hnames]
    exact ⟨rfl, List.forall_mem_cons.2 ⟨hrepresents, hrests⟩⟩

def insertEntry (map : NameValueMap) (entry : List Char) (value : Int) : NameValueMap :=
  map.insert entry value

/-- An enumerator that is left out, or read with a value. -/
theorem walk_cons_cases {e : Enumerator} (h : e.WellFormed) {es : List Enumerator}
    {w t : Walk NameValueMap} (hwalk : walk insertEntry (e :: es) w = some t) :
    (e.read w.currentValue = none ∧ walk insertEntry es w = some t) ∨
    ∃ value w', e.read w.currentValue = some value ∧ value ≠ int32Max ∧
      w'.built = w.built.insert e.name value ∧ w'.currentValue = value + 1 ∧
      walk insertEntry es w' = some t := by
  rw [walk_cons, Walk.visit_text insertEntry h] at hwalk
  cases hread : e.read w.currentValue with
  | none =>
    rw [hread] at hwalk
    exact Or.inl ⟨rfl, hwalk⟩
  | some value =>
    rw [hread] at hwalk
    simp only [Walk.call] at hwalk
    split at hwalk
    · cases hwalk
    · next hmax => exact Or.inr ⟨value, _, rfl, hmax, rfl, rfl, hwalk⟩

/-- Other enumerators do not change the value of a name. -/
theorem lookup_walk {es : List Enumerator} (h : ∀ e ∈ es, e.WellFormed) {name : List Char}
    (hname : name ∉ es.map Enumerator.name) {w t : Walk NameValueMap}
    (hwalk : walk insertEntry es w = some t) : t.built.lookup name = w.built.lookup name := by
  induction es generalizing w with
  | nil =>
    cases hwalk
    rfl
  | cons e es ih =>
    obtain ⟨he, hes⟩ := List.forall_mem_cons.1 h
    rw [List.map_cons, List.mem_cons, not_or] at hname
    rcases walk_cons_cases he hwalk with ⟨-, hrest⟩ | ⟨value, w', -, -, hbuilt, -, hrest⟩
    · exact ih hes hname.2 hrest
    · rw [ih hes hname.2 hrest, hbuilt, AList.lookup_insert_ne hname.1]

/-- If the walk gives every name its value, each enumerator was read as C++ reads it. -/
theorem plain_of_lookup {p : Platform} {u : IntegerType} {es : List Enumerator}
    (h : ∀ e ∈ es, e.WellFormed) (hfits : ∀ e ∈ es, e.Fits p)
    (hdistinct : (es.map Enumerator.name).Nodup) {earlier values : List (List Char × Int)}
    {w t : Walk NameValueMap} (hdeclare : declare p u earlier w.currentValue es = some values)
    (hnew : ∀ e ∈ es, w.built.lookup e.name = none) (hwalk : walk insertEntry es w = some t)
    (hvalues : ∀ entry ∈ values, t.built.lookup entry.1 = some entry.2) :
    (∀ e ∈ es, e.Plain) ∧ ∀ entry ∈ values, entry.2 ≠ int32Max := by
  induction es generalizing earlier values w with
  | nil =>
    cases hdeclare
    exact ⟨fun _ hmem => (by cases hmem), fun _ hmem => by cases hmem⟩
  | cons e es ih =>
    obtain ⟨he, hes⟩ := List.forall_mem_cons.1 h
    obtain ⟨hfit, hfits⟩ := List.forall_mem_cons.1 hfits
    obtain ⟨hfree, hfrees⟩ := List.forall_mem_cons.1 hnew
    rw [List.map_cons, List.nodup_cons] at hdistinct
    obtain ⟨value, rest, hvalue, -, hrest, rfl⟩ := declare_cons hdeclare
    obtain ⟨hfirst, hothers⟩ := List.forall_mem_cons.1 hvalues
    rcases walk_cons_cases he hwalk with
      ⟨-, hleft⟩ | ⟨read, w', hread, hmax, hbuilt, hcurrent, hleft⟩
    · -- it was left out, and so its name has no value
      rw [lookup_walk hes hdistinct.1 hleft, hfree] at hfirst
      cases hfirst
    · rw [lookup_walk hes hdistinct.1 hleft, hbuilt, AList.lookup_insert] at hfirst
      cases hfirst
      have hplain := (Enumerator.read_iff he hfit hvalue).1 hread
      rw [← hcurrent] at hrest
      have hnames : ∀ e' ∈ es, w'.built.lookup e'.name = none := by
        intro e' he'
        have hne : e'.name ≠ e.name :=
          fun hsame => hdistinct.1 (hsame ▸ List.mem_map_of_mem he')
        rw [hbuilt, AList.lookup_insert_ne hne]
        exact hfrees e' he'
      obtain ⟨hplains, hmaxs⟩ := ih hes hfits hdistinct.2 hrest hnames hleft hothers
      exact ⟨List.forall_mem_cons.2 ⟨hplain, hplains⟩, List.forall_mem_cons.2 ⟨hmax, hmaxs⟩⟩

namespace Declaration

variable {p : Platform} {u : IntegerType}

/-- Every enumerator is plain, and none has the greatest value, behind which the counter overflows. -/
def Plain (d : Declaration p u) : Prop :=
  (∀ e ∈ d.enumerators, e.Plain) ∧ ∀ entry ∈ d.values, entry.2 ≠ int32Max

/-- The enumerator that another one is set to is one of the list. -/
theorem earlier_of_declare {es : List Enumerator} {earlier values : List (List Char × Int)}
    {next : Int} (h : declare p u earlier next es = some values) :
    ∀ e ∈ es, ∀ name, e.init = some (.earlier name) →
      name ∈ earlier.map Prod.fst ∨ name ∈ es.map Enumerator.name := by
  induction es generalizing earlier next values with
  | nil =>
    intro e he
    cases he
  | cons e es ih =>
    obtain ⟨value, rest, hvalue, -, hrest, -⟩ := declare_cons h
    intro e' he' name hname
    rcases List.mem_cons.1 he' with rfl | hmem
    · rw [hname] at hvalue
      obtain ⟨before, after, hsplit, -⟩ := List.lookup_eq_some_iff.1 hvalue
      refine Or.inl ?_
      rw [hsplit]
      simp
    · rcases ih hrest e' hmem name hname with hearlier | hlater
      · rw [List.map_append, List.mem_append] at hearlier
        rcases hearlier with hold | hsame
        · exact Or.inl hold
        · exact Or.inr (List.mem_cons.2 (Or.inl (List.mem_singleton.1 hsame)))
      · exact Or.inr (List.mem_cons_of_mem _ hlater)

theorem wellFormed (d : Declaration p u) : ∀ e ∈ d.enumerators, e.WellFormed := by
  intro e he
  refine ⟨d.identifiers e he, d.literals e he, ?_⟩
  intro name hname
  rcases earlier_of_declare d.accepted e he name hname with hnone | hmem
  · cases hnone
  · obtain ⟨e', he', rfl⟩ := List.mem_map.1 hmem
    exact d.identifiers e' he'

theorem walk_of_plain (d : Declaration p u) (h : d.Plain) {σ : Type}
    (callback : σ → List Char → Int → σ) (start : σ) :
    (doForEachEntry callback d.text.length d.text { built := start }).map Walk.built =
      some (d.values.foldl (fun built entry => callback built entry.1 entry.2) start) := by
  unfold Declaration.text
  rw [doForEachEntry_listText callback d.wellFormed d.trailingComma]
  exact walk_plain callback d.wellFormed d.fits h.1 d.accepted h.2

theorem tablesAgree_of_plain (d : Declaration p u) (h : d.Plain) :
    TablesAgree u d.text d.values := by
  obtain ⟨hnames, hrepresents⟩ := names_of_declare d.accepted
  have hnodup : (d.values.map Prod.fst).Nodup := by
    rw [hnames]
    exact d.distinct
  constructor
  · refine ⟨_, d.walk_of_plain h _ _, ?_⟩
    intro name value
    rw [lookup_foldl_insert hnodup]
    simp
  · refine ⟨_, d.walk_of_plain h _ _, ?_⟩
    intro value name
    rw [lookup_foldl_first]
    simp
  · unfold makeVector
    rw [d.walk_of_plain h, foldl_distinct hrepresents]
    simp

theorem plain_of_tablesAgree (d : Declaration p u) (h : TablesAgree u d.text d.values) :
    d.Plain := by
  obtain ⟨map, hmap, hlookup⟩ := h.nameValue
  unfold makeNameValueMap Declaration.text at hmap
  rw [doForEachEntry_listText _ d.wellFormed d.trailingComma, Option.map_eq_some_iff] at hmap
  obtain ⟨t, hwalk, rfl⟩ := hmap
  exact plain_of_lookup d.wellFormed d.fits d.distinct d.accepted (fun _ _ => rfl) hwalk
    fun entry hentry => (hlookup entry.1 entry.2).2 hentry

/-- **Tables.** The tables of an enum agree with the values that C++ gives its enumerators if and only
if no enumerator is set to an earlier one, its decimal literals have no digit separators and are not
the negation of an unsigned number other than zero, its hexadecimal literals are zero, and no
enumerator has the greatest value of an `int32_t`. -/
theorem tables_agree_iff_plain (d : Declaration p u) :
    TablesAgree u d.text d.values ↔ d.Plain :=
  ⟨d.plain_of_tablesAgree, d.tablesAgree_of_plain⟩

end Declaration

-- the distinct values of an enum in which one enumerator is set to the one before it
example : makeVector { signed := true, width := 32 }
    "Entry1, Entry2 = Entry1, Entry3, Entry4 = -2,".toList = some [0, 1, -2] := by
  decide

def sixteen : Literal where
  base := .hexadecimal false
  groups := [['1', '0']]

/-- `Red = 0x10, Green`. -/
def hexadecimalColours : Declaration { long := 64, size := 64 } { signed := true, width := 32 } where
  enumerators := [
    { name := "Red".toList, init := some (.literal sixteen), gaps := { name := 1, equals := 1 } },
    { name := "Green".toList, gaps := { front := 1 } }]
  trailingComma := false
  values := [("Red".toList, 16), ("Green".toList, 17)]
  identifiers := by decide
  distinct := by decide
  literals := by
    intro e he l hl
    rcases List.mem_cons.1 he with rfl | he
    · cases hl
      refine ⟨by decide, ?_, fun h => by cases h⟩
      intro group hgroup
      cases List.mem_singleton.1 hgroup
      exact ⟨by decide, List.all_eq_true.1 (by decide)⟩
    · cases List.mem_singleton.1 he
      cases hl
  trailing := fun h => by cases h
  accepted := by decide
  fits := by
    intro e he l hl value hvalue
    rcases List.mem_cons.1 he with rfl | he
    · cases hl
      have hsixteen : sixteen.value { long := 64, size := 64 } = some 16 := by decide
      cases hsixteen.symm.trans hvalue
      decide
    · cases List.mem_singleton.1 he
      cases hl

/-- The table says that `Red` is zero. -/
theorem hexadecimal_tables_disagree :
    hexadecimalColours.text = "Red = 0x10, Green".toList ∧
      (makeNameValueMap hexadecimalColours.text).map (fun map => map.lookup "Red".toList) =
        some (some 0) ∧
      ¬ TablesAgree { signed := true, width := 32 } hexadecimalColours.text
        hexadecimalColours.values := by
  have hzero : (makeNameValueMap hexadecimalColours.text).map
      (fun map => map.lookup "Red".toList) = some (some 0) := by decide
  refine ⟨by decide, hzero, ?_⟩
  intro hagree
  obtain ⟨map, hmap, hlookup⟩ := hagree.nameValue
  have hsixteen : map.lookup "Red".toList = some 16 :=
    (hlookup "Red".toList 16).2 List.mem_cons_self
  rw [hmap, Option.map_some, hsixteen] at hzero
  exact absurd hzero (by decide)

end KeycapRoot.Utility.Enum
