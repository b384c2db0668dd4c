import KeycapRoot.Utility.Enum

/-!
# Enumerator lists

What C++ makes of the list that `keycap_enum` is given: the values of its enumerators, and the text
that the preprocessor makes of it. An integer literal has a base, digits, which can be separated, and
a suffix; its type decides what its negation is.
-/

namespace KeycapRoot.Utility.Enum

/-! ## Literals -/

inductive Base
  | decimal
  | hexadecimal (upper : Bool)
  deriving DecidableEq, Repr

inductive SizeSuffix
  | long
  | longLong
  | size
  deriving DecidableEq, Repr

/-- A suffix. The flags say which letters are in upper case, and which comes first. -/
structure Suffix where
  unsigned : Option Bool := none
  size : Option (SizeSuffix × Bool) := none
  unsignedFirst : Bool := true
  deriving DecidableEq, Repr

/-- An integer literal with its minus sign. The digits are in groups, with separators between. -/
structure Literal where
  negated : Bool := false
  base : Base := .decimal
  groups : List (List Char)
  suffix : Suffix := {}
  deriving DecidableEq, Repr

def isHexDigit (c : Char) : Bool :=
  c.isDigit || ('a' ≤ c && c ≤ 'f') || ('A' ≤ c && c ≤ 'F')

def hexDigitValue (c : Char) : Nat :=
  if c.isDigit then c.toNat - 48 else if 'a' ≤ c then c.toNat - 87 else c.toNat - 55

def hexValue (digits : List Char) : Nat := digits.foldl (fun n c => 16 * n + hexDigitValue c) 0

def Base.isDigit : Base → Char → Bool
  | .decimal => Char.isDigit
  | .hexadecimal _ => isHexDigit

/-- A decimal literal does not begin with a zero, except that zero is taken for one. -/
structure Literal.WellFormed (l : Literal) : Prop where
  groups : l.groups ≠ []
  digits : ∀ group ∈ l.groups, group ≠ [] ∧ ∀ c ∈ group, l.base.isDigit c = true
  first : l.base = .decimal → l.groups = [['0']] ∨ l.groups.flatten.head? ≠ some '0'

def Literal.magnitude (l : Literal) : Nat :=
  match l.base with
  | .decimal => decimalValue l.groups.flatten
  | .hexadecimal _ => hexValue l.groups.flatten

/-- The number of bits of `long` and of `size_t`. -/
structure Platform where
  long : Nat
  size : Nat

def IntegerType.Represents (t : IntegerType) (value : Int) : Prop := t.cast value = value

instance (t : IntegerType) (value : Int) : Decidable (t.Represents value) :=
  inferInstanceAs (Decidable (_ = _))

/-- The types that a literal can have, the first one that represents it is its type. -/
def Literal.candidates (p : Platform) (l : Literal) : List IntegerType :=
  let widths := match l.suffix.size with
    | none => [32, p.long, 64]
    | some (.long, _) => [p.long, 64]
    | some (.longLong, _) => [64]
    | some (.size, _) => [p.size]
  widths.flatMap fun width =>
    match l.suffix.unsigned, l.base with
    | some _, _ => [{ signed := false, width }]
    | none, .decimal => [{ signed := true, width }]
    | none, .hexadecimal _ => [{ signed := true, width }, { signed := false, width }]

/-- The value of a literal, if it has a type. The negation of an unsigned number is unsigned. -/
def Literal.value (p : Platform) (l : Literal) : Option Int :=
  ((l.candidates p).find? fun t => t.Represents l.magnitude).map fun t =>
    if l.negated then
      if t.signed then -(l.magnitude : Int) else -(l.magnitude : Int) % 2 ^ t.width
    else l.magnitude

/-! ## Enumerators -/

inductive Initializer
  | literal (l : Literal)
  | earlier (name : List Char)
  deriving DecidableEq, Repr

/-- The spaces before and behind the tokens of an enumerator. -/
structure Gaps where
  front : Nat := 0
  name : Nat := 0
  equals : Nat := 0
  sign : Nat := 0
  back : Nat := 0
  deriving DecidableEq, Repr

structure Enumerator where
  name : List Char
  init : Option Initializer := none
  gaps : Gaps := {}
  deriving DecidableEq, Repr

def isIdentifierStart (c : Char) : Bool := c.isAlpha || c == '_' || 128 ≤ c.toNat

def isIdentifier : List Char → Bool
  | [] => false
  | c :: cs => isIdentifierStart c && cs.all fun c => isIdentifierStart c || c.isDigit

def initialValue (p : Platform) (earlier : List (List Char × Int)) (next : Int) :
    Option Initializer → Option Int
  | none => some next
  | some (.literal l) => l.value p
  | some (.earlier name) => earlier.lookup name

/-- The names and values of the enumerators of an enum over the type `u`, if C++ accepts them. -/
def declare (p : Platform) (u : IntegerType) :
    List (List Char × Int) → Int → List Enumerator → Option (List (List Char × Int))
  | _, _, [] => some []
  | earlier, next, e :: es =>
    match initialValue p earlier next e.init with
    | none => none
    | some value =>
      if u.Represents value then
        (declare p u (earlier ++ [(e.name, value)]) (value + 1) es).map ((e.name, value) :: ·)
      else none

/-- An enumerator list that C++ accepts. The values of its literals are in range. -/
structure Declaration (p : Platform) (u : IntegerType) where
  enumerators : List Enumerator
  trailingComma : Bool
  values : List (List Char × Int)
  identifiers : ∀ e ∈ enumerators, isIdentifier e.name = true
  distinct : (enumerators.map Enumerator.name).Nodup
  literals : ∀ e ∈ enumerators, ∀ l, e.init = some (.literal l) → l.WellFormed
  trailing : trailingComma = true → enumerators ≠ []
  accepted : declare p u [] 0 enumerators = some values
  fits : ∀ e ∈ enumerators, ∀ l, e.init = some (.literal l) → ∀ value, l.value p = some value →
    int32Min ≤ value ∧ value < int32Max

/-! ## Text -/

def Suffix.text (s : Suffix) : List Char :=
  let unsigned := match s.unsigned with
    | none => []
    | some upper => [if upper then 'U' else 'u']
  let size := match s.size with
    | none => []
    | some (.long, upper) => [if upper then 'L' else 'l']
    | some (.longLong, upper) => if upper then ['L', 'L'] else ['l', 'l']
    | some (.size, upper) => [if upper then 'Z' else 'z']
  if s.unsignedFirst then unsigned ++ size else size ++ unsigned

def Base.text : Base → List Char
  | .decimal => []
  | .hexadecimal upper => ['0', if upper then 'X' else 'x']

/-- Groups of digits with separators between them. -/
def separated : List (List Char) → List Char
  | [] => []
  | [group] => group
  | group :: groups => group ++ '\'' :: separated groups

/-- A literal without its sign. -/
def Literal.body (l : Literal) : List Char :=
  l.base.text ++ separated l.groups ++ l.suffix.text

def spaces (n : Nat) : List Char := List.replicate n ' '

def Initializer.text (gap : Nat) : Initializer → List Char
  | .literal l => (if l.negated then '-' :: spaces gap else []) ++ l.body
  | .earlier name => name

def Enumerator.text (e : Enumerator) : List Char :=
  spaces e.gaps.front ++ e.name ++ spaces e.gaps.name ++
    match e.init with
    | none => []
    | some init => '=' :: spaces e.gaps.equals ++ init.text e.gaps.sign ++ spaces e.gaps.back

/-- The enumerators with commas between them, and one more at the end. The preprocessor drops the
white space at the end of the text. -/
def listText (trailingComma : Bool) : List Enumerator → List Char
  | [] => []
  | [e] => e.text ++ if trailingComma then [','] else []
  | e :: es => e.text ++ ',' :: listText trailingComma es

def Declaration.text {p : Platform} {u : IntegerType} (d : Declaration p u) : List Char :=
  listText d.trailingComma d.enumerators

end KeycapRoot.Utility.Enum
