import Mathlib.Data.List.Induction
import Mathlib.Data.Nat.Digits.Defs
import KeycapRoot.Lib.BigEndian

/-!
# Botan

Botan is not part of this repository. A `Botan` stands for the functions of it that the SRP6 code
calls, with what is documented of them; its `BigInt` is an integer. `Botan.standard` computes what
Botan does.
-/

namespace KeycapRoot.Network.Srp6

/-- The number that bytes are, the most significant one first. -/
def bigEndian (bytes : List UInt8) : Nat := bytes.foldl (fun n b => 256 * n + b.toNat) 0

/-- The bytes of a number, the most significant one first, and no zero before it. -/
def bigEndianBytes (n : Nat) : List UInt8 := (Nat.digits 256 n).reverse.map UInt8.ofNat

theorem bigEndian_eq_decode (bytes : List UInt8) : bigEndian bytes = BigEndian.decode bytes := rfl

theorem bigEndian_eq_ofDigits (bytes : List UInt8) :
    bigEndian bytes = Nat.ofDigits 256 (bytes.reverse.map UInt8.toNat) := by
  induction bytes using List.reverseRecOn with
  | nil => rfl
  | append_singleton bytes b ih =>
    rw [bigEndian_eq_decode, BigEndian.decode_append_singleton, ← bigEndian_eq_decode, ih,
      List.reverse_append, List.reverse_singleton, List.singleton_append, List.map_cons,
      Nat.ofDigits_cons, Nat.add_comm]

theorem bigEndian_zero_cons (bytes : List UInt8) : bigEndian (0 :: bytes) = bigEndian bytes := rfl

/-- Reading bytes as a number loses the zeros in front of them. -/
theorem bigEndianBytes_bigEndian (bytes : List UInt8) :
    bigEndianBytes (bigEndian bytes) = bytes.dropWhile (· == 0) := by
  induction bytes with
  | nil => simp [bigEndianBytes, bigEndian]
  | cons b bytes ih =>
    by_cases hb : b = 0
    · subst hb
      rw [bigEndian_zero_cons, ih, List.dropWhile_cons_of_pos (by rfl)]
    · have hlast : ∀ h, ((b :: bytes).reverse.map UInt8.toNat).getLast h ≠ 0 := by
        intro h
        simpa [← UInt8.toNat_inj] using hb
      have hlt : ∀ l ∈ (b :: bytes).reverse.map UInt8.toNat, l < 256 := by
        intro l hl
        obtain ⟨c, -, rfl⟩ := List.mem_map.1 hl
        exact c.toNat_lt
      rw [bigEndianBytes, bigEndian_eq_ofDigits, Nat.digits_ofDigits 256 (by decide) _ hlt hlast,
        List.dropWhile_cons_of_neg (by simpa using hb), ← List.map_reverse, List.reverse_reverse,
        List.map_map]
      simp [Function.comp_def]

/-- Writing a number as bytes loses nothing. -/
theorem bigEndian_bigEndianBytes (n : Nat) : bigEndian (bigEndianBytes n) = n := by
  have hdigits : (Nat.digits 256 n).map (UInt8.toNat ∘ UInt8.ofNat) = Nat.digits 256 n := by
    refine (List.map_congr_left ?_).trans (List.map_id _)
    intro l hl
    exact UInt8.toNat_ofNat_of_lt (Nat.digits_lt_base (by decide) hl)
  rw [bigEndian_eq_ofDigits, bigEndianBytes, ← List.map_reverse, List.reverse_reverse,
    List.map_map, hdigits, Nat.ofDigits_digits]

/-- What the SRP6 code uses of Botan. -/
structure Botan where
  /-- `BigInt{std::string}`. -/
  bigInt : List UInt8 → Int
  powerMod : Int → Int → Int → Int
  /-- `BigInt::encode`. -/
  encode : Int → List UInt8
  /-- `BigInt::decode`. -/
  decode : List UInt8 → Int
  /-- The hash of the bytes that a `HashFunction` was updated with. -/
  sha1 : List UInt8 → List UInt8
  powerMod_eq : ∀ base e n, 0 ≤ e → 0 < n → powerMod base e n = base ^ e.toNat % n
  encode_eq : ∀ n, encode n = bigEndianBytes n.natAbs
  decode_eq : ∀ bytes, decode bytes = bigEndian bytes
  length_sha1 : ∀ bytes, (sha1 bytes).length = 20

/-- `encode(decode(bytes))` strips the zeros in front. -/
theorem Botan.encode_decode (botan : Botan) (bytes : List UInt8) :
    botan.encode (botan.decode bytes) = bytes.dropWhile (· == 0) := by
  rw [botan.encode_eq, botan.decode_eq, Int.natAbs_natCast, bigEndianBytes_bigEndian]

theorem Botan.decode_encode (botan : Botan) (n : Nat) : botan.decode (botan.encode n) = n := by
  rw [botan.encode_eq, botan.decode_eq, Int.natAbs_natCast, bigEndian_bigEndianBytes]

/-! ## SHA-1 -/

namespace Sha1

def rotateLeft (x : UInt32) (n : UInt32) : UInt32 := (x <<< n) ||| (x >>> (32 - n))

/-- The message with its padding: a whole number of blocks of 64 bytes. -/
def pad (message : List UInt8) : List UInt8 :=
  let zeros := (119 - message.length % 64) % 64
  let bits := 8 * message.length
  message ++ [0x80] ++ List.replicate zeros 0 ++
    (List.range 8).reverse.map fun i => UInt8.ofNat (bits / 256 ^ i)

/-- The first `n` words of the bytes. -/
def words : Nat → List UInt8 → List UInt32
  | 0, _ => []
  | n + 1, bytes => UInt32.ofNat (bigEndian (bytes.take 4)) :: words n (bytes.drop 4)

/-- The message schedule, the last word first. -/
def schedule (block : List UInt8) : List UInt32 :=
  (List.range 64).foldl
    (fun ws _ =>
      rotateLeft (ws.getD 2 0 ^^^ ws.getD 7 0 ^^^ ws.getD 13 0 ^^^ ws.getD 15 0) 1 :: ws)
    (words 16 block).reverse

structure State where
  a : UInt32
  b : UInt32
  c : UInt32
  d : UInt32
  e : UInt32

def round (s : State) (t : Nat) (w : UInt32) : State :=
  let (f, k) : UInt32 × UInt32 :=
    if t < 20 then ((s.b &&& s.c) ||| ((s.b ^^^ 0xFFFFFFFF) &&& s.d), 0x5A827999)
    else if t < 40 then (s.b ^^^ s.c ^^^ s.d, 0x6ED9EBA1)
    else if t < 60 then ((s.b &&& s.c) ||| (s.b &&& s.d) ||| (s.c &&& s.d), 0x8F1BBCDC)
    else (s.b ^^^ s.c ^^^ s.d, 0xCA62C1D6)
  { a := rotateLeft s.a 5 + f + s.e + k + w, b := s.a, c := rotateLeft s.b 30, d := s.c, e := s.d }

def compress (s : State) (block : List UInt8) : State :=
  let t := (schedule block).reverse.zipIdx.foldl (fun s (w, t) => round s t w) s
  { a := s.a + t.a, b := s.b + t.b, c := s.c + t.c, d := s.d + t.d, e := s.e + t.e }

def blocks : Nat → List UInt8 → State → State
  | 0, _, s => s
  | n + 1, bytes, s => blocks n (bytes.drop 64) (compress s (bytes.take 64))

def bytes (x : UInt32) : List UInt8 :=
  [(x >>> 24).toUInt8, (x >>> 16).toUInt8, (x >>> 8).toUInt8, x.toUInt8]

def hash (message : List UInt8) : List UInt8 :=
  let padded := pad message
  let s := blocks (padded.length / 64) padded
    { a := 0x67452301, b := 0xEFCDAB89, c := 0x98BADCFE, d := 0x10325476, e := 0xC3D2E1F0 }
  bytes s.a ++ bytes s.b ++ bytes s.c ++ bytes s.d ++ bytes s.e

theorem length_hash (message : List UInt8) : (hash message).length = 20 := rfl

-- the hash of "abc"
example : hash [97, 98, 99] =
    [0xA9, 0x99, 0x3E, 0x36, 0x47, 0x06, 0x81, 0x6A, 0xBA, 0x3E, 0x25, 0x71, 0x78, 0x50, 0xC2,
      0x6C, 0x9C, 0xD0, 0xD8, 0x9D] := by
  decide +kernel

end Sha1

/-- The value of a digit, in either base. -/
def digit (c : UInt8) : Nat :=
  if c < 58 then c.toNat - 48 else if c < 71 then c.toNat - 55 else c.toNat - 87

/-- A number in hexadecimal digits behind `0x`, or in decimal digits. -/
def parseNumber : List UInt8 → Nat
  | 48 :: 120 :: digits => digits.foldl (fun n c => 16 * n + digit c) 0
  | digits => digits.foldl (fun n c => 10 * n + digit c) 0

def Botan.standard : Botan where
  bigInt
    | 45 :: number => -(parseNumber number : Int)
    | number => parseNumber number
  powerMod base e n := base ^ e.toNat % n
  encode n := bigEndianBytes n.natAbs
  decode bytes := bigEndian bytes
  sha1 := Sha1.hash
  powerMod_eq _ _ _ _ _ := rfl
  encode_eq _ := rfl
  decode_eq _ := rfl
  length_sha1 := Sha1.length_hash

end KeycapRoot.Network.Srp6
