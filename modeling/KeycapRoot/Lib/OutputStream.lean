import Mathlib.Algebra.Group.Int.Defs
import KeycapRoot.Lib.Hexadecimal

/-!
# Formatted output

An output stream with the format that it writes numbers in. What is written next is padded on the
left to `width` characters, which then is zero again (`OutputStream.insert`); the other settings
stay. The settings that are missing here, such as the alignment and the prefix of a base, are those
of a new stream.
-/

structure OutputStream where
  text : List Char := []
  hex : Bool := false
  uppercase : Bool := false
  fill : Char := ' '
  width : Nat := 0

namespace OutputStream

def insert (os : OutputStream) (s : List Char) : OutputStream :=
  { os with text := os.text ++ List.leftpad os.width os.fill s, width := 0 }

/-- A number without its sign in the base of the stream. -/
def number (os : OutputStream) (n : Nat) : List Char :=
  if os.hex then Hexadecimal.digits os.uppercase n else Nat.toDigits 10 n

def insertUnsigned (os : OutputStream) (n : UInt32) : OutputStream := os.insert (os.number n.toNat)

/-- An `int`. In hexadecimal digits it is written as the unsigned one with its bits. -/
def insertInt (os : OutputStream) (n : Int) : OutputStream :=
  if os.hex then os.insert (os.number (n % 2 ^ 32).toNat)
  else os.insert ((if n < 0 then ['-'] else []) ++ os.number n.natAbs)

def setw (os : OutputStream) (width : Nat) : OutputStream := { os with width := width }

/-! ## Hexadecimal numbers with zeros in front -/

/-- The stream writes hexadecimal numbers with zeros in front. -/
def hexZeros (text : List Char) (uppercase : Bool) : OutputStream where
  text := text
  hex := true
  uppercase := uppercase
  fill := '0'

section HexZeros

variable (text : List Char) (uppercase : Bool)

@[simp] theorem text_hexZeros : (hexZeros text uppercase).text = text := rfl

@[simp] theorem hexZeros_insert (s : List Char) :
    (hexZeros text uppercase).insert s = hexZeros (text ++ s) uppercase := by
  simp [insert, hexZeros, List.leftpad]

@[simp] theorem hexZeros_insertUnsigned (width : Nat) (n : UInt32) :
    ((hexZeros text uppercase).setw width).insertUnsigned n =
      hexZeros (text ++ Hexadecimal.fixed uppercase width n.toNat) uppercase := rfl

@[simp] theorem hexZeros_insertInt (width : Nat) {n : Nat} (h : n < 2 ^ 32) :
    ((hexZeros text uppercase).setw width).insertInt n =
      hexZeros (text ++ Hexadecimal.fixed uppercase width n) uppercase := by
  have hsame : ((n : Int) % 2 ^ 32).toNat = n := by omega
  change ((hexZeros text uppercase).setw width).insert
    (Hexadecimal.digits uppercase ((n : Int) % 2 ^ 32).toNat) = _
  rw [hsame]
  rfl

/-- A loop that writes something for each item. -/
theorem hexZeros_foldl {α : Type} (items : List α) (step : OutputStream → α → OutputStream)
    (written : α → List Char) (hstep : ∀ text, ∀ item ∈ items,
      step (hexZeros text uppercase) item = hexZeros (text ++ written item) uppercase) :
    items.foldl step (hexZeros text uppercase) =
      hexZeros (text ++ items.flatMap written) uppercase := by
  induction items generalizing text with
  | nil => simp
  | cons item items ih =>
    have hrest (text : List Char) := ih text fun text item hitem =>
      hstep text item (List.mem_cons_of_mem _ hitem)
    rw [List.foldl_cons, hstep text item List.mem_cons_self, hrest, List.flatMap_cons,
      List.append_assoc]

end HexZeros

end OutputStream
