import Mathlib.Data.List.DropRight
import KeycapRoot.Network.Srp6.Digests

/-!
# Encodings and their round trips

A number is encoded in as many bytes as it needs or, by `to_array`, in a fixed number of them. What
is lost on the way is zero bytes at the most significant end and nothing else
(`encodings_round_trip`).
-/

namespace KeycapRoot.Network.Srp6

/-- Botan with its encoding in a fixed number of bytes. -/
structure Botan1363 extends Botan where
  /-- `BigInt::encode_1363`, which throws for a number that needs more bytes. -/
  encode1363 : Int → Nat → Except String (List UInt8)
  encode1363_of_lt : ∀ n bytes, n.natAbs < 256 ^ bytes →
    encode1363 n bytes = .ok (BigEndian.encode bytes n.natAbs)
  encode1363_of_le : ∀ n bytes, 256 ^ bytes ≤ n.natAbs → ∃ what, encode1363 n bytes = .error what

def Botan1363.standard : Botan1363 where
  toBotan := Botan.standard
  encode1363 n bytes :=
    if n.natAbs < 256 ^ bytes then .ok (BigEndian.encode bytes n.natAbs)
    else .error "encode_1363: n is too large to encode properly"
  encode1363_of_lt _ _ h := if_pos h
  encode1363_of_le _ _ h := ⟨_, if_neg (Nat.not_lt_of_le h)⟩

section Arrays

variable (botan : Botan1363)

def encode1363Flip (val : Int) (bytes : Nat) : Except String (List UInt8) :=
  (botan.encode1363 val bytes).map List.reverse

/-- The bytes that `to_array` copies into its array of `N` bytes. -/
def toArray (N : Nat) (value : Int) (compliance : Compliance) : Except String (List UInt8) :=
  match compliance with
  | .rfc5054 => botan.encode1363 value N
  | .wow => (botan.encode1363 value N).map List.reverse

/-- `to_array<32>(value, compliance)`. -/
def toArray32 (value : Int) (compliance : Compliance) : Except String (List UInt8) :=
  toArray botan 32 value compliance

/-- `to_array<20>(value, compliance)`. -/
def toArray20 (value : Int) (compliance : Compliance) : Except String (List UInt8) :=
  toArray botan 20 value compliance

/-- A number that has room is encoded in its digits, the least significant one first. -/
theorem encode1363Flip_of_lt {n bytes : Nat} (h : n < 256 ^ bytes) :
    encode1363Flip botan n bytes = .ok (LittleEndian.encode bytes n) := by
  rw [encode1363Flip, botan.encode1363_of_lt n bytes h, Int.natAbs_natCast,
    ← BigEndian.reverse_littleEndian, Except.map, List.reverse_reverse]

theorem decodeFlip_encodeFlip (n : Nat) :
    decodeFlip botan.toBotan (encodeFlip botan.toBotan n) = n := by
  rw [decodeFlip, encodeFlip, List.reverse_reverse, botan.decode_encode]

/-- How a number is encoded in an array of `N` bytes: too large a one throws, and each other one has
that many bytes, is read back and has the same bytes in both orders. -/
structure EncodesFixed (N : Nat) (encode : Int → Compliance → Except String (List UInt8)) :
    Prop where
  throws_iff : ∀ (n : Nat) compliance, (∃ what, encode n compliance = .error what) ↔ 256 ^ N ≤ n
  encodes : ∀ n : Nat, n < 256 ^ N → ∃ bytes, encode n .wow = .ok bytes ∧ bytes.length = N ∧
    decodeFlip botan.toBotan bytes = n ∧ encode n .rfc5054 = .ok bytes.reverse

theorem toArray_encodesFixed (N : Nat) : EncodesFixed botan N (toArray botan N) := by
  constructor
  · intro n compliance
    by_cases hlarge : 256 ^ N ≤ n
    · obtain ⟨what, hwhat⟩ := botan.encode1363_of_le n N hlarge
      refine iff_of_true ⟨what, ?_⟩ hlarge
      cases compliance with
      | wow => rw [toArray, hwhat, Except.map]
      | rfc5054 => rw [toArray, hwhat]
    · have hok := botan.encode1363_of_lt n N (Nat.lt_of_not_le hlarge)
      refine iff_of_false ?_ hlarge
      rintro ⟨what, hwhat⟩
      cases compliance with
      | wow =>
        rw [toArray, hok] at hwhat
        cases hwhat
      | rfc5054 => cases hok.symm.trans hwhat
  · intro n hn
    refine ⟨LittleEndian.encode N n, encode1363Flip_of_lt botan hn, LittleEndian.length_encode N n,
      ?_, ?_⟩
    · rw [decodeFlip, BigEndian.reverse_littleEndian, botan.decode_eq, bigEndian_eq_decode,
        BigEndian.decode_encode, Nat.mod_eq_of_lt hn]
    · rw [BigEndian.reverse_littleEndian]
      exact botan.encode1363_of_lt n N hn

/-- **Encodings.** Encoding and decoding gives each number back, decoding and encoding gives bytes
back without the zeros at their end, and the arrays of 20 and of 32 bytes encode the numbers that
they have room for. -/
theorem encodings_round_trip :
    (∀ n : Nat, decodeFlip botan.toBotan (encodeFlip botan.toBotan n) = n) ∧
    (∀ v, encodeFlip botan.toBotan (decodeFlip botan.toBotan v) = v.rdropWhile (· == 0)) ∧
    EncodesFixed botan 20 (toArray20 botan) ∧ EncodesFixed botan 32 (toArray32 botan) :=
  ⟨decodeFlip_encodeFlip botan, encodeFlip_decodeFlip botan.toBotan, toArray_encodesFixed botan 20,
    toArray_encodesFixed botan 32⟩

end Arrays

end KeycapRoot.Network.Srp6
