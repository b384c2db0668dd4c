import KeycapRoot.Lib.BigEndian
import KeycapRoot.Network.Srp6.Botan

/-!
# HMAC

A `Mac` stands for the functions of Botan that the one-time passwords are computed with: the key
comes as a text in base 32, and HMAC-SHA1 makes digests of 20 bytes. `Mac.standard` computes what
Botan does.
-/

namespace KeycapRoot.Cryptography

open Network.Srp6

/-- What the one-time passwords use of Botan. -/
structure Mac where
  /-- `base32_decode`, which throws for a text that is not in base 32. -/
  base32Decode : List Char → Except String (List UInt8)
  /-- `set_key`, which throws for a key of a length that HMAC does not take. -/
  setKey : List UInt8 → Except String Unit
  /-- The digest of a message under a key. -/
  hmacSha1 : List UInt8 → List UInt8 → List UInt8
  length_hmacSha1 : ∀ key message, (hmacSha1 key message).length = 20

/-- The key that HMAC is set to, if there is one. -/
def Mac.secret (mac : Mac) (key : List Char) : Except String (List UInt8) := do
  let secret ← mac.base32Decode key
  mac.setKey secret
  return secret

namespace Mac

/-- The same texts and keys with another HMAC. -/
def withHmac (mac : Mac) (hmac : List UInt8 → List UInt8 → List UInt8)
    (hlength : ∀ key message, (hmac key message).length = 20) : Mac :=
  { mac with hmacSha1 := hmac, length_hmacSha1 := hlength }

section WithHmac

variable (mac : Mac) (hmac : List UInt8 → List UInt8 → List UInt8)
  (hlength : ∀ key message, (hmac key message).length = 20)

@[simp] theorem secret_withHmac (key : List Char) :
    (mac.withHmac hmac hlength).secret key = mac.secret key := rfl

@[simp] theorem hmacSha1_withHmac : (mac.withHmac hmac hlength).hmacSha1 = hmac := rfl

end WithHmac

/-- The five bits of a character in base 32. -/
def base32Value (c : Char) : Except String Nat :=
  if 65 ≤ c.toNat ∧ c.toNat ≤ 90 then .ok (c.toNat - 65)
  else if 50 ≤ c.toNat ∧ c.toNat ≤ 55 then .ok (c.toNat - 24)
  else .error "base32_decode: invalid base32 character"

/-- The bytes that a text in base 32 without padding stands for. -/
def base32Bytes (text : List Char) : Except String (List UInt8) := do
  let values ← text.mapM base32Value
  let bits := 5 * text.length
  return BigEndian.encode (bits / 8) (values.foldl (fun n v => 32 * n + v) 0 / 2 ^ (bits % 8))

/-- HMAC with SHA-1, whose blocks have 64 bytes. -/
def hmac (key message : List UInt8) : List UInt8 :=
  let key := if 64 < key.length then Sha1.hash key else key
  let block := key ++ List.replicate (64 - key.length) 0
  Sha1.hash (block.map (· ^^^ 0x5C) ++ Sha1.hash (block.map (· ^^^ 0x36) ++ message))

def standard : Mac where
  base32Decode := base32Bytes
  setKey key := if key.length ≤ 4096 then .ok () else .error "Invalid key length"
  hmacSha1 := hmac
  length_hmacSha1 _ _ := Sha1.length_hash _

end Mac

/-- The text "GEZDGNBVGY3TQOJQGEZDGNBVGY3TQOJQ". -/
def testKey : List Char :=
  ['G', 'E', 'Z', 'D', 'G', 'N', 'B', 'V', 'G', 'Y', '3', 'T', 'Q', 'O', 'J', 'Q',
    'G', 'E', 'Z', 'D', 'G', 'N', 'B', 'V', 'G', 'Y', '3', 'T', 'Q', 'O', 'J', 'Q']

/-- The key that it stands for: "12345678901234567890". -/
def testSecret : List UInt8 :=
  [49, 50, 51, 52, 53, 54, 55, 56, 57, 48, 49, 50, 51, 52, 53, 54, 55, 56, 57, 48]

theorem secret_testKey : Mac.standard.secret testKey = .ok testSecret := by
  decide +kernel

end KeycapRoot.Cryptography
