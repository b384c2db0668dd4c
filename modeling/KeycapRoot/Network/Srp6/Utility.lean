import KeycapRoot.Network.Srp6.Botan

/-!
# Hashes of the SRP6 code

Integers go into a hash as their bytes, and hashes come back as integers: the least significant byte
first for `Wow` and the most significant one first for `RFC5054`. The session key of `Wow` is the
interleaved hash of RFC 2945, which needs two bytes of the secret at least.
-/

namespace KeycapRoot.Network.Srp6

inductive Compliance
  | wow
  | rfc5054
  deriving DecidableEq, Repr

/-- An argument of `sha1_hash`. -/
inductive HashArgument
  | bigInt (value : Int)
  | string (bytes : List UInt8)

section Hashes

variable (botan : Botan)

def encodeFlip (val : Int) : List UInt8 := (botan.encode val).reverse

def decodeFlip (val : List UInt8) : Int := botan.decode val.reverse

/-- `hash_one(sha, t, compliance)`: the bytes that the hash is updated with. -/
def hashOne (compliance : Compliance) : HashArgument → List UInt8
  | .bigInt value =>
    match compliance with
    | .wow => encodeFlip botan value
    | .rfc5054 => botan.encode value
  | .string bytes => bytes

def sha1Hash (compliance : Compliance) (args : List HashArgument) : Int :=
  let sha := botan.sha1 (args.flatMap (hashOne botan compliance))
  match compliance with
  | .wow => decodeFlip botan sha
  | .rfc5054 => botan.decode sha

def generateX (username password : List UInt8) (salt : Int) (compliance : Compliance) : Int :=
  -- 58 is a colon
  let hash := sha1Hash botan compliance [.string username, .string [58], .string password]
  sha1Hash botan compliance [.bigInt salt, .bigInt hash]

/-- The bytes at places of the given parity, in order. -/
def placesOfParity (odd : Bool) (s : List UInt8) : List UInt8 :=
  (s.zipIdx.filter fun (_, i) => (i % 2 == 1) == odd).map Prod.fst

/-- What is left of the bytes without the zeros in front, and without one more byte if their number
is odd then. -/
def trimmed (s : List UInt8) : List UInt8 :=
  let s := s.dropWhile (· == 0)
  if s.length % 2 = 1 then s.tail else s

/-- `sha_interleave(S)`. It dereferences the iterators to the first byte that is left and to the
first byte at an odd place, so its behaviour is undefined where nothing is left. -/
def shaInterleave (S : Int) : Option (List UInt8) :=
  let s := trimmed (encodeFlip botan S)
  if s = [] then none
  else
    -- the stable partition puts the bytes at even places in front
    let G := botan.sha1 (placesOfParity false s)
    let H := botan.sha1 (placesOfParity true s)
    some ((G.zip H).flatMap fun (g, h) => [g, h])

/-- `generate_client_proof`: little-endian whatever the compliance mode is. -/
def generateClientProof (N g salt : Int) (I : List UInt8) (A B sessionKey : Int)
    (_compliance : Compliance) : Int :=
  let nHash := botan.sha1 (encodeFlip botan N)
  let gHash := botan.sha1 (encodeFlip botan g)
  let iHash := botan.sha1 I
  let nHash := List.zipWith (· ^^^ ·) nHash gHash
  decodeFlip botan (botan.sha1 (nHash ++ iHash ++ encodeFlip botan salt ++ encodeFlip botan A ++
    encodeFlip botan B ++ encodeFlip botan sessionKey))

theorem shaInterleave_eq_none_iff {S : Int} :
    shaInterleave botan S = none ↔ trimmed (encodeFlip botan S) = [] := by
  simp [shaInterleave]

-- a single byte above a zero
example : shaInterleave Botan.standard 0x500 = none := by decide +kernel

/-- A hash is not negative. -/
theorem sha1Hash_nonneg (compliance : Compliance) (args : List HashArgument) :
    0 ≤ sha1Hash botan compliance args := by
  cases compliance with
  | wow =>
    rw [sha1Hash, decodeFlip, botan.decode_eq]
    exact Int.natCast_nonneg _
  | rfc5054 =>
    rw [sha1Hash, botan.decode_eq]
    exact Int.natCast_nonneg _

theorem generateX_nonneg (username password : List UInt8) (salt : Int) (compliance : Compliance) :
    0 ≤ generateX botan username password salt compliance :=
  sha1Hash_nonneg botan compliance _

end Hashes

end KeycapRoot.Network.Srp6
