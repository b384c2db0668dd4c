import KeycapRoot.Utility.EnumDeclaration

/-!
# Walking over an enumerator list

The text of an enumerator list is cut at its commas, and nothing else in it is a comma
(`cells_listText`). Without white space the text of an enumerator is its name and what it is set to,
so the loop reads the value that `Enumerator.read` has for it (`Walk.visit_text`).
-/

namespace KeycapRoot.Utility.Enum

/-- The characters that tokens are made of. -/
def isToken (c : Char) : Bool := c != ' ' && c != '\t' && c != ','

/-- A test tells two characters apart. -/
theorem char_ne {p : Char → Bool} {c d : Char} (hc : p c = true) (hd : p d = false) : c ≠ d := by
  rintro rfl
  rw [hc] at hd
  cases hd

theorem isToken_of {p : Char → Bool} (hp : (p ' ' || p '\t' || p ',') = false) {c : Char}
    (h : p c = true) : isToken c = true := by
  rw [Bool.or_eq_false_iff, Bool.or_eq_false_iff] at hp
  obtain ⟨⟨hspace, htab⟩, hcomma⟩ := hp
  simp [isToken, char_ne h hspace, char_ne h htab, char_ne h hcomma]

theorem removeWhitespaces_spaces (n : Nat) : removeWhitespaces (spaces n) = [] := by
  unfold removeWhitespaces spaces
  rw [List.filter_eq_nil_iff]
  intro c hc
  rw [List.eq_of_mem_replicate hc]
  decide

theorem removeWhitespaces_append (s t : List Char) :
    removeWhitespaces (s ++ t) = removeWhitespaces s ++ removeWhitespaces t := List.filter_append _ _

theorem removeWhitespaces_of_tokens {s : List Char} (h : ∀ c ∈ s, isToken c = true) :
    removeWhitespaces s = s := by
  unfold removeWhitespaces
  rw [List.filter_eq_self]
  intro c hc
  have htoken := h c hc
  rw [isToken, Bool.and_eq_true] at htoken
  exact htoken.1

theorem comma_notMem_of_tokens {s : List Char} (h : ∀ c ∈ s, isToken c = true) : ',' ∉ s :=
  fun hmem => absurd (h ',' hmem) (by decide)

theorem comma_notMem_spaces (n : Nat) : ',' ∉ spaces n := by
  intro hmem
  exact absurd (List.eq_of_mem_replicate hmem) (by decide)

/-! ## Tokens -/

def isIdentifierChar (c : Char) : Bool := isIdentifierStart c || c.isDigit

theorem identifierChar_of_mem {name : List Char} (h : isIdentifier name = true) {c : Char}
    (hc : c ∈ name) : isIdentifierChar c = true := by
  cases name with
  | nil => cases hc
  | cons d name =>
    rw [isIdentifier, Bool.and_eq_true, List.all_eq_true] at h
    rcases List.mem_cons.1 hc with rfl | hrest
    · rw [isIdentifierChar, h.1, Bool.true_or]
    · exact h.2 c hrest

theorem tokens_identifier {name : List Char} (h : isIdentifier name = true) :
    ∀ c ∈ name, isToken c = true :=
  fun _ hc => isToken_of (by decide) (identifierChar_of_mem h hc)

theorem equals_notMem_identifier {name : List Char} (h : isIdentifier name = true) : '=' ∉ name :=
  fun hmem => absurd (identifierChar_of_mem h hmem) (by decide)

theorem tokens_suffix (s : Suffix) : ∀ c ∈ s.text, isToken c = true := by
  obtain ⟨unsigned, size, first⟩ := s
  apply List.all_eq_true.1
  rcases unsigned with _ | _ | _ <;> rcases size with _ | ⟨_ | _ | _, _ | _⟩ <;>
    cases first <;> decide

theorem tokens_base (b : Base) : ∀ c ∈ b.text, isToken c = true := by
  apply List.all_eq_true.1
  rcases b with _ | _ | _ <;> decide

theorem tokens_digit (b : Base) {c : Char} (h : b.isDigit c = true) : isToken c = true := by
  cases b with
  | decimal => exact isToken_of (by decide) h
  | hexadecimal upper => exact isToken_of (p := isHexDigit) (by decide) h

theorem tokens_separated {groups : List (List Char)}
    (h : ∀ group ∈ groups, ∀ c ∈ group, isToken c = true) :
    ∀ c ∈ separated groups, isToken c = true := by
  induction groups with
  | nil =>
    intro c hc
    cases hc
  | cons group groups ih =>
    obtain ⟨hgroup, hgroups⟩ := List.forall_mem_cons.1 h
    cases groups with
    | nil => exact hgroup
    | cons next groups =>
      intro c hc
      rw [separated, List.mem_append, List.mem_cons] at hc
      · rcases hc with hfirst | rfl | hrest
        · exact hgroup c hfirst
        · decide
        · exact ih hgroups c hrest
      · exact List.cons_ne_nil next groups

theorem tokens_body {l : Literal} (h : l.WellFormed) : ∀ c ∈ l.body, isToken c = true := by
  intro c hc
  unfold Literal.body at hc
  rw [List.mem_append, List.mem_append] at hc
  rcases hc with (hbase | hdigits) | hsuffix
  · exact tokens_base _ c hbase
  · exact tokens_separated (fun group hgroup c hmem =>
      tokens_digit _ ((h.digits group hgroup).2 c hmem)) c hdigits
  · exact tokens_suffix _ c hsuffix

/-! ## Enumerators -/

/-- What the grammar asks of an enumerator. -/
structure Enumerator.WellFormed (e : Enumerator) : Prop where
  name : isIdentifier e.name = true
  literal : ∀ l, e.init = some (.literal l) → l.WellFormed
  earlier : ∀ name, e.init = some (.earlier name) → isIdentifier name = true

theorem removeWhitespaces_init (gap : Nat) {init : Initializer}
    (h : ∀ c ∈ init.text 0, isToken c = true) :
    removeWhitespaces (init.text gap) = init.text 0 ∧ ',' ∉ init.text gap := by
  cases init with
  | earlier name =>
    exact ⟨removeWhitespaces_of_tokens h, comma_notMem_of_tokens h⟩
  | literal l =>
    obtain ⟨negated, base, groups, suffix⟩ := l
    cases negated with
    | false => exact ⟨removeWhitespaces_of_tokens h, comma_notMem_of_tokens h⟩
    | true =>
      have hbody : ∀ c ∈ Literal.body { base, groups, suffix }, isToken c = true :=
        fun c hc => h c (List.mem_append_right _ hc)
      have htext : Initializer.text gap (.literal { negated := true, base, groups, suffix }) =
          '-' :: spaces gap ++ Literal.body { base, groups, suffix } := rfl
      rw [htext]
      constructor
      · rw [removeWhitespaces_append, removeWhitespaces_of_tokens hbody]
        change '-' :: removeWhitespaces (spaces gap) ++ _ = _
        rw [removeWhitespaces_spaces]
        rfl
      · intro hmem
        rcases List.mem_append.1 hmem with hsign | hrest
        · rcases List.mem_cons.1 hsign with hminus | hspace
          · exact absurd hminus (by decide)
          · exact comma_notMem_spaces gap hspace
        · exact comma_notMem_of_tokens hbody hrest

theorem Enumerator.WellFormed.tokens_init {e : Enumerator} (h : e.WellFormed) {init : Initializer}
    (hinit : e.init = some init) : ∀ c ∈ init.text 0, isToken c = true := by
  cases init with
  | earlier name => exact tokens_identifier (h.earlier name hinit)
  | literal l =>
    intro c hc
    unfold Initializer.text at hc
    rcases List.mem_append.1 hc with hsign | hbody
    · split at hsign
      · cases List.mem_singleton.1 hsign
        decide
      · cases hsign
    · exact tokens_body (h.literal l hinit) c hbody

/-- An enumerator without its spaces. -/
def Enumerator.compact (e : Enumerator) : List Char :=
  e.name ++ match e.init with
    | none => []
    | some init => '=' :: init.text 0

theorem Enumerator.WellFormed.removeWhitespaces_text {e : Enumerator} (h : e.WellFormed) :
    removeWhitespaces e.text = e.compact ∧ ',' ∉ e.text := by
  have hname := tokens_identifier h.name
  have hcomma := comma_notMem_of_tokens hname
  unfold Enumerator.text Enumerator.compact
  rw [removeWhitespaces_append, removeWhitespaces_append, removeWhitespaces_append,
    removeWhitespaces_spaces, removeWhitespaces_spaces, removeWhitespaces_of_tokens hname,
    List.nil_append, List.append_nil]
  cases hinit : e.init with
  | none => simp [removeWhitespaces, hcomma, comma_notMem_spaces]
  | some init =>
    obtain ⟨hremove, hinitcomma⟩ := removeWhitespaces_init e.gaps.sign (h.tokens_init hinit)
    constructor
    · change e.name ++ removeWhitespaces (['='] ++ spaces _ ++ _ ++ spaces _) = _
      rw [removeWhitespaces_append, removeWhitespaces_append, removeWhitespaces_append,
        removeWhitespaces_spaces, removeWhitespaces_spaces, hremove, List.append_nil,
        List.append_nil]
      rfl
    · simp [hcomma, hinitcomma, comma_notMem_spaces]

/-- The value that is read for an enumerator; it is left out if there is none. -/
def Enumerator.read (e : Enumerator) (currentValue : Int) : Option Int :=
  match e.init with
  | none => some currentValue
  | some init => convert (init.text 0)

theorem extractValue_name {name : List Char} (h : '=' ∉ name) : extractValue name = (name, none) := by
  have hdrop : name.dropWhile (· != '=') = [] := by
    rw [List.dropWhile_eq_nil_iff]
    intro c hc
    exact bne_iff_ne.2 fun heq => h (heq ▸ hc)
  rw [extractValue, hdrop]

theorem extractValue_value {name : List Char} (h : '=' ∉ name) (value : List Char) :
    extractValue (name ++ '=' :: value) = (name, some value) := by
  have hname : ∀ c ∈ name, (c != '=') = true := fun c hc => bne_iff_ne.2 fun heq => h (heq ▸ hc)
  rw [extractValue, List.dropWhile_append_of_pos hname, List.takeWhile_append_of_pos hname]
  simp

/-- The loop comes to an enumerator. -/
theorem Walk.visit_text {σ : Type} (callback : σ → List Char → Int → σ) {e : Enumerator}
    (h : e.WellFormed) (w : Walk σ) :
    w.visit callback (removeWhitespaces e.text) =
      match e.read w.currentValue with
      | some value => w.call callback e.name value
      | none => some w := by
  have hname := equals_notMem_identifier h.name
  rw [h.removeWhitespaces_text.1, Walk.visit, Enumerator.compact, Enumerator.read]
  cases e.init with
  | none =>
    rw [List.append_nil, extractValue_name hname]
  | some init =>
    have hvalue := extractValue_value hname (init.text 0)
    cases hread : convert (init.text 0) <;> simp only [hvalue, hread]

theorem cells_listText {es : List Enumerator} {trailingComma : Bool}
    (h : ∀ e ∈ es, e.WellFormed) :
    cells (listText trailingComma es) = es.map Enumerator.text := by
  induction es with
  | nil => rfl
  | cons e es ih =>
    obtain ⟨he, hes⟩ := List.forall_mem_cons.1 h
    have hcomma := he.removeWhitespaces_text.2
    have hne : e.text ≠ [] := by
      intro hnil
      have hname := he.name
      have hzero := congrArg List.length hnil
      unfold Enumerator.text at hzero
      simp only [List.length_append, List.length_nil] at hzero
      rw [List.eq_nil_of_length_eq_zero (l := e.name) (by omega)] at hname
      cases hname
    cases es with
    | nil =>
      unfold listText
      cases trailingComma with
      | false =>
        rw [if_neg (by decide), List.append_nil]
        exact cells_of_no_comma hcomma hne
      | true => exact cells_append_comma hcomma []
    | cons next es =>
      rw [listText, cells_append_comma hcomma, ih hes]
      · rfl
      · exact List.cons_ne_nil next es

end KeycapRoot.Utility.Enum
