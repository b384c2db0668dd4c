import Mathlib.Algebra.Group.Nat.Defs
import Mathlib.Tactic.Common

/-!
# Little-endian bytes of fixed-width integers

`encode w n` lists the `w` low base-256 digits of `n`, least significant first, and `decode` reads
such a list back; `decode_encode` is the round trip modulo `256 ^ w`. `Scalar` is the class of
integer types with a fixed width in bytes: a value is stored as the digits of its bit pattern
(`Scalar.toBytes`) and `Scalar.ofBytes` undoes that.
-/

namespace LittleEndian

/-- The `w` low base-256 digits of `n`. -/
def encode : Nat → Nat → List UInt8
  | 0, _ => []
  | w + 1, n => UInt8.ofNat n :: encode w (n / 256)

/-- The number whose base-256 digits are the bytes. -/
def decode : List UInt8 → Nat
  | [] => 0
  | b :: bs => b.toNat + 256 * decode bs

@[simp] theorem length_encode (w n : Nat) : (encode w n).length = w := by
  induction w generalizing n with
  | zero => rfl
  | succ w ih => rw [encode, List.length_cons, ih]

@[simp] theorem decode_encode (w n : Nat) : decode (encode w n) = n % 256 ^ w := by
  induction w generalizing n with
  | zero => simp [encode, decode, Nat.mod_one]
  | succ w ih =>
    rw [encode, decode, ih, Nat.pow_succ', Nat.mod_mul, UInt8.toNat_ofNat']

theorem decode_lt (bs : List UInt8) : decode bs < 256 ^ bs.length := by
  induction bs with
  | nil => exact Nat.one_pos
  | cons b bs ih =>
    have hb := b.toNat_lt
    rw [decode, List.length_cons, Nat.pow_succ]
    omega

/-- Numbers of equally many digits are equal only if the digits are. -/
theorem decode_inj {bs cs : List UInt8} (hlength : bs.length = cs.length)
    (h : decode bs = decode cs) : bs = cs := by
  induction bs generalizing cs with
  | nil => exact (List.eq_nil_of_length_eq_zero hlength.symm).symm
  | cons b bs ih =>
    cases cs with
    | nil => simp at hlength
    | cons c cs =>
      have hb := b.toNat_lt
      have hc := c.toNat_lt
      rw [decode, decode] at h
      have hfirst : b = c := UInt8.toNat_inj.1 (by omega)
      rw [hfirst, ih (Nat.succ.inj hlength) (by omega)]

/-- More digits make no number smaller. -/
theorem decode_le_append (bs cs : List UInt8) : decode bs ≤ decode (bs ++ cs) := by
  induction bs with
  | nil => exact Nat.zero_le _
  | cons b bs ih =>
    simp only [List.cons_append, decode]
    omega

theorem decode_zeros (n : Nat) : decode (List.replicate n 0) = 0 := by
  induction n with
  | zero => rfl
  | succ n ih =>
    rw [List.replicate_succ, decode, ih]
    rfl

/-- Zeros at the end do not count. -/
theorem decode_append_zeros (bs : List UInt8) (n : Nat) :
    decode (bs ++ List.replicate n 0) = decode bs := by
  induction bs with
  | nil => exact decode_zeros n
  | cons b bs ih => simp only [List.cons_append, decode, ih]

/-! ## Integer types of a fixed width -/

/-- An integer type stored in `size` bytes: `toNat` is the bit pattern of a value. -/
class Scalar (α : Type) where
  size : Nat
  toNat : α → Nat
  ofNat : Nat → α
  size_pos : 0 < size
  toNat_lt : ∀ a, toNat a < 256 ^ size
  ofNat_toNat : ∀ a, ofNat (toNat a) = a

namespace Scalar

variable {α : Type} [Scalar α]

/-- The bytes a value is stored in. -/
def toBytes (a : α) : List UInt8 := encode (size α) (toNat a)

/-- The value that is stored in the bytes. -/
def ofBytes (bs : List UInt8) : α := ofNat (decode bs)

@[simp] theorem length_toBytes (a : α) : (toBytes a).length = size α := length_encode _ _

@[simp] theorem ofBytes_toBytes (a : α) : ofBytes (toBytes a) = a := by
  rw [ofBytes, toBytes, decode_encode, Nat.mod_eq_of_lt (toNat_lt a), ofNat_toNat]

/-- The bytes of a list of values, one after the other. -/
def bytesOf (vs : List α) : List UInt8 := vs.flatMap toBytes

@[simp] theorem bytesOf_nil : bytesOf ([] : List α) = [] := rfl

@[simp] theorem bytesOf_cons (v : α) (vs : List α) :
    bytesOf (v :: vs) = toBytes v ++ bytesOf vs := rfl

@[simp] theorem length_bytesOf (vs : List α) : (bytesOf vs).length = vs.length * size α := by
  induction vs with
  | nil => simp
  | cons v vs ih =>
    rw [bytesOf_cons, List.length_append, length_toBytes, ih, List.length_cons, Nat.succ_mul,
      Nat.add_comm]

/-- The values stored one after the other in the bytes. -/
def valuesOf (α : Type) [Scalar α] : Nat → List UInt8 → List α
  | 0, _ => []
  | n + 1, bs => ofBytes (bs.take (size α)) :: valuesOf α n (bs.drop (size α))

@[simp] theorem valuesOf_bytesOf (vs : List α) (rest : List UInt8) :
    valuesOf α vs.length (bytesOf vs ++ rest) = vs := by
  induction vs with
  | nil => rfl
  | cons v vs ih =>
    have hlen : size α = (toBytes v).length := (length_toBytes v).symm
    rw [List.length_cons, valuesOf, bytesOf_cons, List.append_assoc, hlen, List.take_left,
      List.drop_left, ofBytes_toBytes, ih]

end Scalar

instance : Scalar UInt8 where
  size := 1
  toNat := UInt8.toNat
  ofNat := UInt8.ofNat
  size_pos := by decide
  toNat_lt := UInt8.toNat_lt
  ofNat_toNat _ := UInt8.ofNat_toNat

instance : Scalar UInt16 where
  size := 2
  toNat := UInt16.toNat
  ofNat := UInt16.ofNat
  size_pos := by decide
  toNat_lt := UInt16.toNat_lt
  ofNat_toNat _ := UInt16.ofNat_toNat

instance : Scalar UInt32 where
  size := 4
  toNat := UInt32.toNat
  ofNat := UInt32.ofNat
  size_pos := by decide
  toNat_lt := UInt32.toNat_lt
  ofNat_toNat _ := UInt32.ofNat_toNat

instance : Scalar UInt64 where
  size := 8
  toNat := UInt64.toNat
  ofNat := UInt64.ofNat
  size_pos := by decide
  toNat_lt := UInt64.toNat_lt
  ofNat_toNat _ := UInt64.ofNat_toNat

theorem Scalar.ofBytes_byte (b : UInt8) : Scalar.ofBytes [b] = b := by
  have h : Scalar.toBytes b = [b] := by simp [toBytes, encode, Scalar.size, Scalar.toNat]
  rw [← h, ofBytes_toBytes]

/-- A type in bijection with a stored one is stored in the same bytes. -/
@[reducible] def Scalar.via {α β : Type} [Scalar β] (pattern : α → β) (value : β → α)
    (h : ∀ a, value (pattern a) = a) : Scalar α where
  size := size β
  toNat a := toNat (pattern a)
  ofNat n := value (ofNat n)
  size_pos := size_pos
  toNat_lt a := toNat_lt (pattern a)
  ofNat_toNat a := by rw [ofNat_toNat, h]

-- A signed integer is stored as the unsigned one with its bit pattern.
instance : Scalar Int8 := .via Int8.toUInt8 UInt8.toInt8 Int8.toInt8_toUInt8
instance : Scalar Int16 := .via Int16.toUInt16 UInt16.toInt16 Int16.toInt16_toUInt16
instance : Scalar Int32 := .via Int32.toUInt32 UInt32.toInt32 Int32.toInt32_toUInt32
instance : Scalar Int64 := .via Int64.toUInt64 UInt64.toInt64 Int64.toInt64_toUInt64

/-- Every pattern of the size is the pattern of a value. -/
class Scalar.Full (α : Type) [Scalar α] : Prop where
  toNat_ofNat : ∀ n, n < 256 ^ size α → toNat (ofNat n : α) = n

instance : Scalar.Full UInt8 := ⟨fun _ h => UInt8.toNat_ofNat_of_lt' h⟩
instance : Scalar.Full UInt16 := ⟨fun _ h => UInt16.toNat_ofNat_of_lt' h⟩
instance : Scalar.Full UInt32 := ⟨fun _ h => UInt32.toNat_ofNat_of_lt' h⟩
instance : Scalar.Full UInt64 := ⟨fun _ h => UInt64.toNat_ofNat_of_lt' h⟩

/-- Values of a full type are read back as the bytes that they were read from. -/
theorem Scalar.toBytes_ofBytes {α : Type} [Scalar α] [Full α] {bs : List UInt8}
    (h : bs.length = size α) : toBytes (ofBytes bs : α) = bs := by
  have hlt : decode bs < 256 ^ size α := h ▸ decode_lt bs
  apply decode_inj
  · rw [length_toBytes, h]
  · rw [toBytes, decode_encode, ofBytes, Full.toNat_ofNat _ hlt, Nat.mod_eq_of_lt hlt]

example : Scalar.toBytes (0xDEADBEEF : UInt32) = [0xEF, 0xBE, 0xAD, 0xDE] := by decide

end LittleEndian
