import KeycapRoot.Lib.OutputStream

/-!
# Bytes in hexadecimal digits

`to_hex_string` converts each element to an `unsigned int` and writes it at width 2. An element of a
signed type that is negative becomes a number of eight digits, so the text has two digits for each
element exactly if none is negative (`toHexString_iff`).
-/

namespace KeycapRoot.Utility

/-- A type of elements with eight bits. -/
class ByteElement (α : Type) where
  /-- `static_cast<unsigned int>`. -/
  toUnsignedInt : α → UInt32
  /-- `static_cast<unsigned char>`. -/
  toUnsignedChar : α → UInt8

open ByteElement

instance : ByteElement UInt8 where
  toUnsignedInt := UInt8.toUInt32
  toUnsignedChar e := e

instance : ByteElement Int8 where
  toUnsignedInt e := e.toInt32.toUInt32
  toUnsignedChar := Int8.toUInt8

section HexString

variable {α : Type} [ByteElement α]

/-- `to_hex_string(begin, end, prepend_0x)` of the elements. -/
def toHexString (elements : List α) (prepend0x : Bool := false) : List Char :=
  let ss : OutputStream := { hex := true, uppercase := true, fill := '0' }
  let ss := if prepend0x then ss.insert ['0', 'x'] else ss
  (elements.foldl (fun ss e => (ss.setw 2).insertUnsigned (toUnsignedInt e)) ss).text

/-- The text in front of the digits. -/
def hexPrefix (prepend0x : Bool) : List Char := if prepend0x then ['0', 'x'] else []

theorem toHexString_eq (elements : List α) (prepend0x : Bool) :
    toHexString elements prepend0x = hexPrefix prepend0x ++
      elements.flatMap fun e => Hexadecimal.fixed true 2 (toUnsignedInt e).toNat := by
  have hstart : (if prepend0x then (OutputStream.hexZeros [] true).insert ['0', 'x']
      else OutputStream.hexZeros [] true) = OutputStream.hexZeros (hexPrefix prepend0x) true := by
    cases prepend0x <;> rfl
  change (List.foldl _ (if prepend0x then (OutputStream.hexZeros [] true).insert ['0', 'x']
    else OutputStream.hexZeros [] true) elements).text = _
  rw [hstart, OutputStream.hexZeros_foldl _ _ elements _
    (fun e => Hexadecimal.fixed true 2 (toUnsignedInt e).toNat) fun text e _ => rfl]
  rfl

/-- The text is the prefix and two upper-case digits for each byte, which are read as the bytes. -/
def HexText (text : List Char) (prepend0x : Bool) (bytes : List UInt8) : Prop :=
  ∃ digits, text = hexPrefix prepend0x ++ digits ∧ digits.length = 2 * bytes.length ∧
    (∀ c ∈ digits, c ∈ Hexadecimal.alphabet true) ∧ Hexadecimal.bytes digits = some bytes

theorem le_length_digits (elements : List α) :
    2 * elements.length ≤
      (elements.flatMap fun e => Hexadecimal.fixed true 2 (toUnsignedInt e).toNat).length := by
  induction elements with
  | nil => exact Nat.le_refl _
  | cons e elements ih =>
    have hfirst := Hexadecimal.le_length_fixed true 2 (toUnsignedInt e).toNat
    rw [List.flatMap_cons, List.length_append, List.length_cons]
    omega

/-- Two digits for each element are two digits for every one. -/
theorem length_digits_eq_iff (elements : List α) :
    (elements.flatMap fun e => Hexadecimal.fixed true 2 (toUnsignedInt e).toNat).length =
        2 * elements.length ↔
      ∀ e ∈ elements, (toUnsignedInt e).toNat < 256 := by
  induction elements with
  | nil => simp
  | cons e elements ih =>
    have hrest := le_length_digits elements
    have hfirst := Hexadecimal.le_length_fixed true 2 (toUnsignedInt e).toNat
    have htwo := Hexadecimal.length_fixed_eq_iff true (by decide : 0 < 2) (toUnsignedInt e).toNat
    rw [List.flatMap_cons, List.length_append, List.length_cons, List.forall_mem_cons, ← ih]
    omega

/-- The text is as it should be exactly if each element is converted to its byte. -/
theorem hexText_iff (elements : List α) (prepend0x : Bool)
    (hbyte : ∀ e : α, (toUnsignedInt e).toNat < 256 →
      (toUnsignedInt e).toNat = (toUnsignedChar e).toNat) :
    HexText (toHexString elements prepend0x) prepend0x (elements.map toUnsignedChar) ↔
      ∀ e ∈ elements, (toUnsignedInt e).toNat < 256 := by
  rw [← length_digits_eq_iff, toHexString_eq]
  constructor
  · rintro ⟨digits, htext, hlength, -, -⟩
    rw [List.append_cancel_left htext, hlength, List.length_map]
  · intro hlength
    refine ⟨_, rfl, ?_, ?_, ?_⟩
    · rw [hlength, List.length_map]
    · intro c hc
      obtain ⟨e, -, hdigit⟩ := List.mem_flatMap.1 hc
      exact Hexadecimal.mem_alphabet_of_mem_fixed c hdigit
    · have hsmall := (length_digits_eq_iff elements).1 hlength
      rw [← Hexadecimal.bytes_flatMap_fixed true (elements.map toUnsignedChar), List.flatMap_map]
      refine congrArg _ (List.flatMap_congr ?_)
      intro e he
      rw [hbyte e (hsmall e he)]

end HexString

/-- A negative element is converted to a number near the greatest one. -/
theorem toNat_toUnsignedInt_int8 (e : Int8) :
    (toUnsignedInt e).toNat =
      (toUnsignedChar e).toNat + if 0 ≤ e then 0 else 2 ^ 32 - 2 ^ 8 := by
  have hwide : e.toInt32.toInt = e.toInt := Int8.toInt_toInt32 e
  have hint : e.toInt32.toInt = if 2 * e.toInt32.toUInt32.toNat < 2 ^ 32
      then (e.toInt32.toUInt32.toNat : Int)
      else (e.toInt32.toUInt32.toNat : Int) - (2 ^ 32 : Nat) :=
    BitVec.toInt_eq_toNat_cond _
  have hchar : e.toInt = if 2 * e.toUInt8.toNat < 2 ^ 8
      then (e.toUInt8.toNat : Int) else (e.toUInt8.toNat : Int) - (2 ^ 8 : Nat) :=
    BitVec.toInt_eq_toNat_cond _
  have hintlt := e.toInt32.toUInt32.toNat_lt
  have hcharlt := e.toUInt8.toNat_lt
  have hsign : 0 ≤ e ↔ 0 ≤ e.toInt := Int8.le_iff_toInt_le
  change e.toInt32.toUInt32.toNat = e.toUInt8.toNat + _
  by_cases hneg : 0 ≤ e
  · rw [if_pos hneg]
    have := hsign.1 hneg
    split at hint <;> split at hchar <;> omega
  · rw [if_neg hneg]
    have := mt hsign.2 hneg
    split at hint <;> split at hchar <;> omega

/-- **Hexadecimal digits.** The text has the two digits of each byte, whatever the elements are if
their type is unsigned, and exactly if none is negative if it is signed. -/
theorem toHexString_iff (prepend0x : Bool) :
    (∀ elements : List UInt8, HexText (toHexString elements prepend0x) prepend0x elements) ∧
    ∀ elements : List Int8,
      HexText (toHexString elements prepend0x) prepend0x (elements.map Int8.toUInt8) ↔
        ∀ e ∈ elements, 0 ≤ e := by
  constructor
  · intro elements
    have htext := (hexText_iff elements prepend0x fun _ _ => rfl).2 fun e _ => e.toNat_lt
    rwa [show elements.map toUnsignedChar = elements from List.map_id _] at htext
  · intro elements
    have hsmall (e : Int8) : (toUnsignedInt e).toNat < 256 ↔ 0 ≤ e := by
      have hlt := (toUnsignedChar e).toNat_lt
      rw [toNat_toUnsignedInt_int8]
      split
      · next hnonneg => exact iff_of_true (by omega) hnonneg
      · next hneg => exact iff_of_false (by omega) hneg
    have hbyte (e : Int8) (h : (toUnsignedInt e).toNat < 256) :
        (toUnsignedInt e).toNat = (toUnsignedChar e).toNat := by
      rw [toNat_toUnsignedInt_int8, if_pos ((hsmall e).1 h), Nat.add_zero]
    simp only [← hsmall]
    exact hexText_iff elements prepend0x hbyte

/-- A byte of the value -128. -/
theorem negative_eight_digits :
    toHexString [(-128 : Int8)] = ['F', 'F', 'F', 'F', 'F', 'F', '8', '0'] ∧
      ¬ HexText (toHexString [(-128 : Int8)]) false [0x80] := by
  have htext : toHexString [(-128 : Int8)] = ['F', 'F', 'F', 'F', 'F', 'F', '8', '0'] := by
    decide
  refine ⟨htext, ?_⟩
  rintro ⟨digits, hdigits, hlength, -⟩
  rw [htext] at hdigits
  change _ = digits at hdigits
  rw [← hdigits] at hlength
  exact absurd hlength (by decide)

end KeycapRoot.Utility
