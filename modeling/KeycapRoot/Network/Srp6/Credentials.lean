import KeycapRoot.Network.Srp6.Digests
import KeycapRoot.Utility.String

/-!
# Credentials

A verifier is generated from the credentials in upper case, and a client hashes the credentials as
it is given them. So a client that is given what the verifier was generated from reaches the
server's session key, whatever SHA-1 computes, exactly if no letter of them is in lower case
(`credentials_agree_iff`).
-/

namespace KeycapRoot.Network.Srp6

open Utility (toUpper islower toUpper_eq_self_iff length_toUpper)

section Credentials

variable (botan : Botan)

def generateVerifier (username password : List UInt8) (groupParameter : GroupParameter)
    (salt : Int) (compliance : Compliance) : Int :=
  let username := toUpper username
  let password := toUpper password
  let x := generateX botan username password salt compliance
  botan.powerMod groupParameter.g.toNat x (botan.bigInt groupParameter.N)

/-- The client that is given the credentials that a verifier was generated from derives the `x` of
the verifier, and its call of `session_key` ends as the server's does. -/
structure CredentialsAgree (username password : List UInt8) (salt : Int)
    (groupParameter : GroupParameter) (compliance : Compliance) : Prop where
  exponent : generateX botan username password salt compliance =
    generateX botan (toUpper username) (toUpper password) salt compliance
  sessionKey : ∀ a b : Int, 0 ≤ a → 0 ≤ b → 0 < botan.bigInt groupParameter.N →
    let client := Client.new botan groupParameter username compliance a
    let server := Server.new botan groupParameter
      (generateVerifier botan username password groupParameter salt compliance) compliance b
    ¬ botan.bigInt groupParameter.N ∣ client.publicEphemeralValue →
    server.sessionKey botan client.publicEphemeralValue =
      .ofOption (client.sessionKey botan server.publicEphemeralValue username password salt)
        { server with A := client.publicEphemeralValue }

/-- Equal exponents are all that the session keys need. -/
theorem CredentialsAgree.of_exponent {username password : List UInt8} {salt : Int}
    {groupParameter : GroupParameter} {compliance : Compliance}
    (h : generateX botan username password salt compliance =
      generateX botan (toUpper username) (toUpper password) salt compliance) :
    CredentialsAgree botan username password salt groupParameter compliance where
  exponent := h
  sessionKey := by
    intro a b ha hb hN client server hA
    have hv : generateVerifier botan username password groupParameter salt compliance =
        botan.powerMod groupParameter.g.toNat (generateX botan username password salt compliance)
          (botan.bigInt groupParameter.N) := by
      rw [h]
      rfl
    obtain ⟨hclient, hserver⟩ := sessionKey_of_verifier botan groupParameter hN ha hb salt username
      username password compliance hA hv
    rw [hclient]
    exact hserver

end Credentials

/-! ## A hash that tells the credentials apart -/

section Separation

theorem credentials_toUpper_inj {username password : List UInt8}
    (h : credentials username password = credentials (toUpper username) (toUpper password)) :
    toUpper username = username ∧ toUpper password = password := by
  unfold credentials at h
  obtain ⟨hfront, hpassword⟩ := List.append_inj h (by simp)
  obtain ⟨husername, -⟩ := List.append_inj hfront (by simp)
  exact ⟨husername.symm, hpassword.symm⟩

/-- A digest that starts and ends with a byte that is not zero. -/
def sameBytes (k : UInt8) : List UInt8 := List.replicate 20 k

theorem leading_sameBytes (compliance : Compliance) {k : UInt8} (hk : k ≠ 0) :
    leading compliance (sameBytes k) ≠ some 0 := by
  cases compliance <;> simpa [leading, sameBytes] using hk

/-- A hash that tells four messages apart. -/
def separating (s₁ s₂ t₁ message : List UInt8) : List UInt8 :=
  if message = s₁ then sameBytes 1
  else if message = s₂ then sameBytes 2
  else if message = t₁ then sameBytes 3
  else sameBytes 4

theorem length_separating (s₁ s₂ t₁ message : List UInt8) :
    (separating s₁ s₂ t₁ message).length = 20 := by
  unfold separating
  repeat' split
  all_goals exact List.length_replicate

theorem separating_ne {s₁ s₂ t₁ t₂ : List UInt8} (ht : t₁ ≠ t₂) :
    separating s₁ s₂ t₁ t₁ ≠ separating s₁ s₂ t₁ t₂ := by
  unfold separating
  rw [if_neg ht.symm]
  by_cases h₁ : t₁ = s₁
  · subst h₁
    rw [if_pos rfl, if_neg ht.symm]
    split <;> decide
  · rw [if_neg h₁, if_pos rfl]
    by_cases h₂ : t₁ = s₂
    · subst h₂
      rw [if_pos rfl, if_neg ht.symm]
      split <;> decide
    · rw [if_neg h₂]
      repeat' split
      all_goals decide

theorem separating_leading (compliance : Compliance) (s₁ s₂ t₁ message : List UInt8) :
    leading compliance (separating s₁ s₂ t₁ message) ≠ some 0 := by
  unfold separating
  repeat' split
  all_goals exact leading_sameBytes compliance (by decide)

/-- Botan with another hash. -/
def withSha1 (sha1 : List UInt8 → List UInt8) (h : ∀ bytes, (sha1 bytes).length = 20) : Botan :=
  { Botan.standard with sha1 := sha1, length_sha1 := h }

variable (botan : Botan)

/-- Digests that do not start with a zero are read as different integers. -/
theorem readHash_inj {compliance : Compliance} {d e : List UInt8}
    (hd : leading compliance d ≠ some 0) (he : leading compliance e ≠ some 0)
    (h : readHash botan compliance d = readHash botan compliance e) : d = e := by
  rw [← (hashOne_readHash_iff botan compliance d).2 hd,
    ← (hashOne_readHash_iff botan compliance e).2 he, h]

/-- Credentials that are hashed as different bytes get different exponents from some hash. -/
theorem exists_generateX_ne {username password username' password' : List UInt8}
    (h : credentials username password ≠ credentials username' password') (salt : Int)
    (compliance : Compliance) :
    ∃ botan, generateX botan username password salt compliance ≠
      generateX botan username' password' salt compliance := by
  let salted (k : UInt8) : List UInt8 :=
    hashOne Botan.standard compliance (.bigInt salt) ++ sameBytes k
  let sha1 := separating (credentials username password) (credentials username' password')
    (salted 1)
  let botan := withSha1 sha1 (length_separating _ _ _)
  have hfirst : sha1 (credentials username password) = sameBytes 1 := if_pos rfl
  have hsecond : sha1 (credentials username' password') = sameBytes 2 := by
    change separating _ _ _ _ = _
    unfold separating
    rw [if_neg h.symm, if_pos rfl]
  have hkept (k : UInt8) (hk : k ≠ 0) :
      hashOne botan compliance (.bigInt (readHash botan compliance (sameBytes k))) = sameBytes k :=
    (hashOne_readHash_iff botan compliance _).2 (leading_sameBytes compliance hk)
  have hsalted : salted 1 ≠ salted 2 := by
    intro heq
    exact absurd (List.append_cancel_left heq) (by decide)
  refine ⟨botan, ?_⟩
  intro heq
  rw [generateX_eq, generateX_eq] at heq
  have hdigests := readHash_inj botan (separating_leading compliance _ _ _ _)
    (separating_leading compliance _ _ _ _) heq
  rw [show botan.sha1 = sha1 from rfl, hfirst, hsecond, hkept 1 (by decide),
    hkept 2 (by decide)] at hdigests
  exact separating_ne hsalted hdigests

end Separation

/-- **Credentials.** Whatever SHA-1 computes, a client that is given what the verifier was generated
from derives its exponent and reaches the server's session key, if and only if neither the username
nor the password has a letter in lower case. -/
theorem credentials_agree_iff (username password : List UInt8) (salt : Int)
    (groupParameter : GroupParameter) (compliance : Compliance) :
    (∀ botan, CredentialsAgree botan username password salt groupParameter compliance) ↔
      (∀ c ∈ username, islower c = false) ∧ ∀ c ∈ password, islower c = false := by
  rw [← toUpper_eq_self_iff, ← toUpper_eq_self_iff]
  constructor
  · intro h
    by_contra hlower
    have hne : credentials username password ≠
        credentials (toUpper username) (toUpper password) :=
      fun heq => hlower (credentials_toUpper_inj heq)
    obtain ⟨botan, hx⟩ := exists_generateX_ne hne salt compliance
    exact hx (h botan).exponent
  · rintro ⟨husername, hpassword⟩ botan
    apply CredentialsAgree.of_exponent
    rw [husername, hpassword]

-- the verifier of "a" and "b" is the one of "A" and "B"
theorem lower_case_credentials_disagree :
    ¬ CredentialsAgree Botan.standard [97] [98] 0 smallGroup .rfc5054 := by
  intro h
  have hx := h.exponent
  rw [generateX_eq, generateX_eq] at hx
  have hencode : Botan.standard.encode 0 = [] := by
    rw [Botan.standard.encode_eq, Int.natAbs_zero, bigEndianBytes, Nat.digits_zero]
    rfl
  simp only [hashOne, readHash, hencode, List.nil_append] at hx
  have hbytes := congrArg Botan.standard.encode hx
  rw [Botan.encode_decode, Botan.encode_decode, Botan.encode_decode, Botan.encode_decode] at hbytes
  exact absurd hbytes (by decide +kernel)

end KeycapRoot.Network.Srp6
