import Mathlib.Tactic.Ring
import KeycapRoot.Utility.EnumText

/-!
# Reading literals

Literals are read as decimal numbers. Of a hexadecimal literal that is the zero in front, and of
separated digits the first group; and the number is negated as a signed one. So a literal is read as
its value exactly if it is plain (`convert_literal_iff`).
-/

namespace KeycapRoot.Utility.Enum

/-! ## Numbers -/

theorem sign_of_ne {c : Char} (hminus : c ≠ '-') (hplus : c ≠ '+') (str : List Char) :
    sign (c :: str) = (false, c :: str) := by
  unfold sign
  split
  · next heq => exact absurd (List.cons.inj heq).1 hminus
  · next heq => exact absurd (List.cons.inj heq).1 hplus
  · rfl

/-- The value that is read for a sign and digits. -/
def readNumber (negative : Bool) (digits : List Char) : Option Int :=
  toInt32 (if negative then -decimalValue digits else decimalValue digits)

theorem convert_of_sign {str : List Char} {negative : Bool} {digits rest : List Char}
    (hspace : str.dropWhile isSpace = str) (hsign : sign str = (negative, digits ++ rest))
    (hne : digits ≠ []) (hdigits : ∀ c ∈ digits, c.isDigit = true)
    (hrest : ∀ c, rest.head? = some c → c.isDigit = false) :
    convert str = readNumber negative digits := by
  have hnone : rest.takeWhile Char.isDigit = [] := by
    cases rest with
    | nil => rfl
    | cons c rest => rw [List.takeWhile_cons_of_neg (by rw [hrest c rfl]; decide)]
  have htake : (digits ++ rest).takeWhile Char.isDigit = digits := by
    rw [List.takeWhile_append_of_pos hdigits, hnone, List.append_nil]
  unfold convert
  rw [hspace, hsign]
  simp only [htake]
  cases digits with
  | nil => exact absurd rfl hne
  | cons c digits => rfl

theorem isSpace_of_lt {c : Char} (h : ' '.toNat < c.toNat) : isSpace c = false := by
  have hspace : c ≠ ' ' := by
    rintro rfl
    exact Nat.lt_irrefl _ h
  have hcode : ' '.toNat = 32 := rfl
  simp only [isSpace, beq_eq_false_iff_ne.2 hspace, Bool.false_or, Bool.and_eq_false_iff,
    decide_eq_false_iff_not]
  omega

theorem isSpace_of_isDigit {c : Char} (h : c.isDigit = true) : isSpace c = false := by
  apply isSpace_of_lt
  exact Nat.lt_of_lt_of_le (by decide) (Char.isDigit_iff_toNat.1 h).1

/-- Digits with a minus sign or without one. -/
theorem convert_digits (negated : Bool) {digits rest : List Char} (hne : digits ≠ [])
    (hdigits : ∀ c ∈ digits, c.isDigit = true)
    (hrest : ∀ c, rest.head? = some c → c.isDigit = false) :
    convert ((if negated then ['-'] else []) ++ (digits ++ rest)) =
      readNumber negated digits := by
  cases negated with
  | true => exact convert_of_sign rfl rfl hne hdigits hrest
  | false =>
    refine convert_of_sign ?_ ?_ hne hdigits hrest
    · cases digits with
      | nil => exact absurd rfl hne
      | cons c digits =>
        have hc := isSpace_of_isDigit (hdigits c List.mem_cons_self)
        exact List.dropWhile_cons_of_neg (by rw [hc]; decide)
    · cases digits with
      | nil => exact absurd rfl hne
      | cons c digits =>
        have hc := hdigits c List.mem_cons_self
        exact sign_of_ne (char_ne hc (by decide)) (char_ne hc (by decide)) _

theorem le_toNat_of_isIdentifierStart {c : Char} (h : isIdentifierStart c = true) :
    65 ≤ c.toNat := by
  have hval : c.toNat = c.val.toNat := rfl
  rw [isIdentifierStart, Bool.or_eq_true, Bool.or_eq_true, beq_iff_eq, decide_eq_true_eq] at h
  rcases h with (hletter | rfl) | hother
  · rcases Bool.or_eq_true_iff.1 hletter with hupper | hlower
    · have hA : 'A'.val ≤ c.val := (of_decide_eq_true hupper).1
      exact UInt32.le_iff_toNat_le.1 hA
    · obtain ⟨hge, -⟩ := Bool.and_eq_true_iff.1 hlower
      have ha : 97 ≤ c.val.toNat := UInt32.le_iff_toNat_le.1 (of_decide_eq_true hge)
      omega
  · decide
  · omega

/-- A name is not read as a number. -/
theorem convert_identifier {name : List Char} (h : isIdentifier name = true) :
    convert name = none := by
  cases name with
  | nil => cases h
  | cons c name =>
    rw [isIdentifier, Bool.and_eq_true] at h
    have hstart := h.1
    have hle := le_toNat_of_isIdentifierStart hstart
    have hspace : isSpace c = false := by
      apply isSpace_of_lt
      exact Nat.lt_of_lt_of_le (by decide) hle
    have hdigit : ¬ c.isDigit = true := by
      intro hc
      have hnine : '9'.toNat = 57 := rfl
      have hbounds := Char.isDigit_iff_toNat.1 hc
      omega
    unfold convert
    rw [List.dropWhile_cons_of_neg (by rw [hspace]; decide),
      sign_of_ne (char_ne hstart (by decide)) (char_ne hstart (by decide))]
    simp only [List.takeWhile_cons_of_neg hdigit]

/-! ## Literals -/

theorem decimalValue_append (digits more : List Char) :
    decimalValue (digits ++ more) =
      10 ^ more.length * decimalValue digits + decimalValue more := by
  unfold decimalValue
  rw [List.foldl_append]
  generalize digits.foldl (fun n c => 10 * n + (c.toNat - 48)) 0 = n
  have hstep (more : List Char) (n : Nat) :
      more.foldl (fun n c => 10 * n + (c.toNat - 48)) n =
        10 ^ more.length * n + more.foldl (fun n c => 10 * n + (c.toNat - 48)) 0 := by
    induction more generalizing n with
    | nil => simp
    | cons c more ih =>
      rw [List.foldl_cons, List.foldl_cons, ih, ih (10 * 0 + _), List.length_cons, Nat.pow_succ]
      ring
  exact hstep more n

/-- Digits that do not begin with a zero are not zero. -/
theorem decimalValue_pos {digits : List Char} (hne : digits ≠ [])
    (hdigits : ∀ c ∈ digits, c.isDigit = true) (hfirst : digits.head? ≠ some '0') :
    0 < decimalValue digits := by
  cases digits with
  | nil => exact absurd rfl hne
  | cons c digits =>
    have hbounds := Char.isDigit_iff_toNat.1 (hdigits c List.mem_cons_self)
    have hzero : '0'.toNat = 48 := rfl
    have hc : c ≠ '0' := fun h => hfirst (by rw [h]; rfl)
    have hpos : 0 < decimalValue [c] := by
      change 0 < 10 * 0 + (c.toNat - 48)
      have hne : c.toNat ≠ 48 := fun h => hc (Char.toNat_inj.1 h)
      omega
    rw [← List.singleton_append, decimalValue_append]
    have hprod := Nat.mul_pos (Nat.pow_pos (a := 10) (n := digits.length) (by decide)) hpos
    omega

/-- The first group of separated digits is less than all of them. -/
theorem decimalValue_lt_append {digits more : List Char} (hpos : 0 < decimalValue digits)
    (hmore : more ≠ []) : decimalValue digits < decimalValue (digits ++ more) := by
  rw [decimalValue_append]
  have hten : 10 ^ 1 ≤ 10 ^ more.length :=
    Nat.pow_le_pow_right (by decide) (List.length_pos_of_ne_nil hmore)
  have hmul := Nat.mul_le_mul_right (decimalValue digits) hten
  omega

/-- What is read as C++ reads it: decimal digits without separators, unless a minus sign stands
before an unsigned number, and zero. -/
def Literal.Plain (l : Literal) : Prop :=
  match l.base with
  | .decimal =>
    l.groups.length = 1 ∧ (l.negated = true → l.suffix.unsigned.isSome = true → l.magnitude = 0)
  | .hexadecimal _ => l.magnitude = 0

/-- The negation of a number in an unsigned type. -/
theorem neg_emod_pos {m : Nat} {width : Nat} (hm : (m : Int) % 2 ^ width = m) (hne : m ≠ 0) :
    0 < -(m : Int) % 2 ^ width := by
  have hwidth : (0 : Int) < 2 ^ width := Int.pow_pos (by decide)
  have hlt : (m : Int) < 2 ^ width := hm ▸ Int.emod_lt_of_pos (m : Int) hwidth
  refine lt_of_le_of_ne (Int.emod_nonneg _ (Int.ne_of_gt hwidth)) ?_
  intro hzero
  have hdvd := Int.dvd_neg.1 (Int.dvd_of_emod_eq_zero hzero.symm)
  have hle := Int.le_of_dvd (by omega) hdvd
  omega

/-- The value of a literal by its sign and type. -/
theorem Literal.value_cases {p : Platform} {l : Literal} {value : Int}
    (h : l.value p = some value) :
    (l.negated = false ∧ value = l.magnitude) ∨
    (l.negated = true ∧ value = -l.magnitude ∧
      (l.base = .decimal → l.suffix.unsigned.isSome = false)) ∨
    (l.negated = true ∧ (l.magnitude = 0 → value = 0) ∧ (l.magnitude ≠ 0 → 0 < value) ∧
      (l.base = .decimal → l.suffix.unsigned.isSome = true)) := by
  unfold Literal.value at h
  obtain ⟨t, ht, hvalue⟩ := Option.map_eq_some_iff.1 h
  have hrepresents : t.Represents l.magnitude := by simpa using List.find?_some ht
  have hmem := List.mem_of_find?_eq_some ht
  unfold Literal.candidates at hmem
  obtain ⟨width, -, hmem⟩ := List.mem_flatMap.1 hmem
  have htype : l.base = .decimal → l.suffix.unsigned.isSome = !t.signed := by
    intro hbase
    rw [hbase] at hmem
    cases hunsigned : l.suffix.unsigned with
    | none =>
      rw [hunsigned] at hmem
      cases List.mem_singleton.1 hmem
      rfl
    | some upper =>
      rw [hunsigned] at hmem
      cases List.mem_singleton.1 hmem
      rfl
  cases hnegated : l.negated with
  | false =>
    rw [hnegated] at hvalue
    exact Or.inl ⟨rfl, hvalue.symm⟩
  | true =>
    rw [hnegated, if_pos rfl] at hvalue
    cases hsigned : t.signed with
    | true =>
      rw [hsigned, if_pos rfl] at hvalue
      rw [hsigned] at htype
      exact Or.inr (Or.inl ⟨rfl, hvalue.symm, htype⟩)
    | false =>
      rw [hsigned, if_neg (by decide)] at hvalue
      rw [hsigned] at htype
      have hsame : (l.magnitude : Int) % 2 ^ t.width = l.magnitude := by
        have hcast := hrepresents
        unfold IntegerType.Represents IntegerType.cast at hcast
        rwa [hsigned, if_neg (by decide)] at hcast
      refine Or.inr (Or.inr ⟨rfl, ?_, ?_, htype⟩)
      · intro hzero
        rw [← hvalue, hzero]
        simp
      · intro hne
        rw [← hvalue]
        exact neg_emod_pos hsame hne

theorem digits_separated (group : List Char) (groups : List (List Char)) (more : List Char)
    (hmore : ∀ c, more.head? = some c → c.isDigit = false) :
    ∃ rest, separated (group :: groups) ++ more = group ++ rest ∧
      ∀ c, rest.head? = some c → c.isDigit = false := by
  cases groups with
  | nil => exact ⟨more, rfl, hmore⟩
  | cons next groups =>
    refine ⟨'\'' :: (separated (next :: groups) ++ more), by simp [separated], ?_⟩
    intro c hc
    cases hc
    decide

theorem head_suffix (s : Suffix) : ∀ c, s.text.head? = some c → c.isDigit = false := by
  obtain ⟨unsigned, size, first⟩ := s
  rcases unsigned with _ | _ | _ <;> rcases size with _ | ⟨_ | _ | _, _ | _⟩ <;>
    cases first <;> simp [Suffix.text]

theorem text_literal (l : Literal) :
    (Initializer.literal l).text 0 =
      (if l.negated then ['-'] else []) ++ (l.base.text ++ (separated l.groups ++ l.suffix.text)) := by
  change (if l.negated then '-' :: spaces 0 else []) ++
    (l.base.text ++ separated l.groups ++ l.suffix.text) = _
  rw [List.append_assoc]
  rfl

/-- Of a decimal literal the first group is read. -/
theorem convert_decimal {l : Literal} (h : l.WellFormed) (hbase : l.base = .decimal)
    {group : List Char} {groups : List (List Char)} (hgroups : l.groups = group :: groups) :
    convert ((Initializer.literal l).text 0) = readNumber l.negated group := by
  have hgroup := h.digits group (by rw [hgroups]; exact List.mem_cons_self)
  rw [hbase] at hgroup
  obtain ⟨rest, htext, hrest⟩ := digits_separated group groups l.suffix.text (head_suffix l.suffix)
  rw [← convert_digits l.negated hgroup.1 hgroup.2 hrest, ← htext, ← hgroups]
  rw [text_literal, hbase]
  rfl

/-- Of a hexadecimal literal the zero in front is read. -/
theorem convert_hexadecimal {l : Literal} {upper : Bool} (hbase : l.base = .hexadecimal upper) :
    convert ((Initializer.literal l).text 0) = some 0 := by
  have hrest : ∀ c, ((if upper then 'X' else 'x') :: (separated l.groups ++ l.suffix.text)).head? =
      some c → c.isDigit = false := by
    intro c hc
    cases hc
    cases upper <;> decide
  have hdigits : ∀ c ∈ ['0'], c.isDigit = true := List.all_eq_true.1 (by decide)
  have hread : readNumber l.negated ['0'] = some 0 := by cases l.negated <;> decide
  rw [← hread, ← convert_digits l.negated (List.cons_ne_nil _ _) hdigits hrest]
  rw [text_literal, hbase]
  rfl

theorem toInt32_eq_some {n value : Int} :
    toInt32 n = some value ↔ n = value ∧ int32Min ≤ value ∧ value ≤ int32Max := by
  unfold toInt32
  split
  · next hrange =>
    rw [Option.some.injEq]
    constructor
    · rintro rfl
      exact ⟨rfl, hrange⟩
    · exact And.left
  · next hrange =>
    refine iff_of_false (by simp) ?_
    rintro ⟨rfl, hvalue⟩
    exact hrange hvalue

/-- Of separated digits the first group is less than all of them, and not zero. -/
theorem Literal.WellFormed.first_group {l : Literal} (h : l.WellFormed) (hbase : l.base = .decimal)
    {group next : List Char} {groups : List (List Char)} (hgroups : l.groups = group :: next :: groups) :
    0 < decimalValue group ∧
      decimalValue group < decimalValue (group ++ (next :: groups).flatten) := by
  have hgroup := h.digits group (by rw [hgroups]; exact List.mem_cons_self)
  have hnext := h.digits next (by rw [hgroups]; exact List.mem_cons_of_mem _ List.mem_cons_self)
  rw [hbase] at hgroup
  have hhead : group.head? ≠ some '0' := by
    rcases h.first hbase with hzero | hfirst
    · rw [hgroups] at hzero
      cases hzero
    · rwa [hgroups, List.flatten_cons, List.head?_append_of_ne_nil _ hgroup.1] at hfirst
  have hpos := decimalValue_pos hgroup.1 hgroup.2 hhead
  refine ⟨hpos, decimalValue_lt_append hpos ?_⟩
  rw [List.flatten_cons]
  exact List.append_ne_nil_of_left_ne_nil hnext.1 _

/-- A hexadecimal literal is read as its value exactly if it is zero. -/
theorem convert_hexadecimal_iff {p : Platform} {l : Literal} {upper : Bool}
    (hbase : l.base = .hexadecimal upper) {value : Int} (hvalue : l.value p = some value) :
    convert ((Initializer.literal l).text 0) = some value ↔ l.magnitude = 0 := by
  rw [convert_hexadecimal hbase, Option.some.injEq]
  rcases Literal.value_cases hvalue with ⟨-, rfl⟩ | ⟨-, rfl, -⟩ | ⟨-, hzero, hpos, -⟩
  · omega
  · omega
  · constructor
    · intro h0
      by_contra hne
      have hlt := hpos hne
      omega
    · exact fun h0 => (hzero h0).symm

/-- Of a single group all digits are read, and the number is negated as a signed one. -/
theorem convert_group_iff {p : Platform} {l : Literal} (h : l.WellFormed)
    (hbase : l.base = .decimal) {group : List Char} (hgroups : l.groups = [group]) {value : Int}
    (hvalue : l.value p = some value) (hfits : int32Min ≤ value ∧ value < int32Max) :
    convert ((Initializer.literal l).text 0) = some value ↔
      (l.negated = true → l.suffix.unsigned.isSome = true → l.magnitude = 0) := by
  have hmagnitude : l.magnitude = decimalValue group := by
    unfold Literal.magnitude
    rw [hbase, hgroups, List.flatten_singleton]
  have hmax : value ≤ int32Max := Int.le_of_lt hfits.2
  rw [convert_decimal h hbase hgroups, readNumber, toInt32_eq_some, ← hmagnitude]
  rcases Literal.value_cases hvalue with
    ⟨hsign, rfl⟩ | ⟨hsign, rfl, hsigned⟩ | ⟨hsign, hzero, hpos, hunsigned⟩
  · rw [hsign, if_neg Bool.false_ne_true]
    exact iff_of_true ⟨rfl, hfits.1, hmax⟩ fun hnegated => absurd hnegated Bool.false_ne_true
  · rw [hsign, if_pos rfl]
    refine iff_of_true ⟨rfl, hfits.1, hmax⟩ ?_
    intro _ hunsigned
    rw [hsigned hbase] at hunsigned
    cases hunsigned
  · rw [hsign, if_pos rfl]
    constructor
    · rintro ⟨heq, -⟩ - -
      by_contra hne
      have hlt := hpos hne
      omega
    · intro hplain
      have h0 := hplain rfl (hunsigned hbase)
      have hv := hzero h0
      exact ⟨by omega, hfits.1, hmax⟩

/-- Of several groups the first one is read, and it is less than all of them. -/
theorem convert_groups_ne {p : Platform} {l : Literal} (h : l.WellFormed)
    (hbase : l.base = .decimal) {group next : List Char} {groups : List (List Char)}
    (hgroups : l.groups = group :: next :: groups) {value : Int}
    (hvalue : l.value p = some value) :
    convert ((Initializer.literal l).text 0) ≠ some value := by
  obtain ⟨hpos, hless⟩ := h.first_group hbase hgroups
  have hmagnitude : l.magnitude = decimalValue (group ++ (next :: groups).flatten) := by
    unfold Literal.magnitude
    rw [hbase, hgroups, List.flatten_cons]
  rw [← hmagnitude] at hless
  rw [convert_decimal h hbase hgroups, readNumber, Ne, toInt32_eq_some]
  rintro ⟨heq, -⟩
  rcases Literal.value_cases hvalue with ⟨hsign, rfl⟩ | ⟨hsign, rfl, -⟩ | ⟨hsign, -, hvaluepos, -⟩
  · rw [hsign, if_neg Bool.false_ne_true] at heq
    omega
  · rw [hsign, if_pos rfl] at heq
    omega
  · rw [hsign, if_pos rfl] at heq
    have hlt := hvaluepos (by omega)
    omega

/-- A literal is read as its value exactly if it is plain. -/
theorem convert_literal_iff {p : Platform} {l : Literal} (h : l.WellFormed) {value : Int}
    (hvalue : l.value p = some value) (hfits : int32Min ≤ value ∧ value < int32Max) :
    convert ((Initializer.literal l).text 0) = some value ↔ l.Plain := by
  unfold Literal.Plain
  cases hbase : l.base with
  | hexadecimal upper => exact convert_hexadecimal_iff hbase hvalue
  | decimal =>
    obtain ⟨group, groups, hgroups⟩ := List.exists_cons_of_ne_nil h.groups
    cases groups with
    | nil =>
      have hlength : l.groups.length = 1 := by
        rw [hgroups]
        rfl
      rw [convert_group_iff h hbase hgroups hvalue hfits]
      exact (and_iff_right hlength).symm
    | cons next groups =>
      have hmany : l.groups.length ≠ 1 := by
        rw [hgroups]
        simp
      exact iff_of_false (convert_groups_ne h hbase hgroups hvalue) fun hplain => hmany hplain.1

end KeycapRoot.Utility.Enum
