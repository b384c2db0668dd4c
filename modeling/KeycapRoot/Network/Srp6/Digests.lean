import KeycapRoot.Network.Srp6.KeyAgreement

/-!
# Digests that are hashed again

A digest travels through the SRP6 code as an integer, and an integer goes into a hash without the
zeros in front of it. So a digest is hashed again as it is unless its most significant byte is zero
(`hashOne_readHash_iff`); and a client proof, which is always read the least significant byte
first, is turned round on its way when the server hashes the other way.
-/

namespace KeycapRoot.Network.Srp6

theorem dropWhile_zero_eq_self_iff (bytes : List UInt8) :
    bytes.dropWhile (· == 0) = bytes ↔ bytes.head? ≠ some 0 := by
  cases bytes with
  | nil => simp
  | cons b bytes =>
    by_cases hb : b = 0
    · subst hb
      rw [List.dropWhile_cons_of_pos (by rfl), List.head?_cons]
      refine ⟨fun h => ?_, fun h => absurd rfl h⟩
      have hle := (List.dropWhile_suffix (l := bytes) (· == (0 : UInt8))).length_le
      rw [h, List.length_cons] at hle
      omega
    · rw [List.dropWhile_cons_of_neg (by simpa using hb)]
      simpa using hb

/-- What is hashed of the credentials. -/
def credentials (username password : List UInt8) : List UInt8 := username ++ [58] ++ password

section Digests

variable (botan : Botan)

/-- A digest as the integer that `sha1_hash` returns. -/
def readHash (compliance : Compliance) (digest : List UInt8) : Int :=
  match compliance with
  | .wow => decodeFlip botan digest
  | .rfc5054 => botan.decode digest

theorem sha1Hash_eq (compliance : Compliance) (args : List HashArgument) :
    sha1Hash botan compliance args =
      readHash botan compliance (botan.sha1 (args.flatMap (hashOne botan compliance))) := rfl

theorem generateX_eq (username password : List UInt8) (salt : Int) (compliance : Compliance) :
    generateX botan username password salt compliance =
      readHash botan compliance (botan.sha1 (hashOne botan compliance (.bigInt salt) ++
        hashOne botan compliance
          (.bigInt (readHash botan compliance (botan.sha1 (credentials username password)))))) := by
  simp [generateX, sha1Hash_eq, credentials, hashOne]

/-- The byte of a digest that is the most significant one of the integer. -/
def leading (compliance : Compliance) (digest : List UInt8) : Option UInt8 :=
  match compliance with
  | .wow => digest.getLast?
  | .rfc5054 => digest.head?

theorem encodeFlip_decodeFlip (bytes : List UInt8) :
    encodeFlip botan (decodeFlip botan bytes) =
      (bytes.reverse.dropWhile (· == 0)).reverse := by
  rw [encodeFlip, decodeFlip, botan.encode_decode]

theorem encodeFlip_decodeFlip_iff (bytes : List UInt8) :
    encodeFlip botan (decodeFlip botan bytes) = bytes ↔ bytes.getLast? ≠ some 0 := by
  rw [encodeFlip_decodeFlip, List.reverse_eq_iff, dropWhile_zero_eq_self_iff, List.head?_reverse]

/-- A digest is hashed as it is unless its most significant byte is zero. -/
theorem hashOne_readHash_iff (compliance : Compliance) (digest : List UInt8) :
    hashOne botan compliance (.bigInt (readHash botan compliance digest)) = digest ↔
      leading compliance digest ≠ some 0 := by
  cases compliance with
  | wow => exact encodeFlip_decodeFlip_iff botan digest
  | rfc5054 =>
    have hencode : hashOne botan .rfc5054 (.bigInt (readHash botan .rfc5054 digest)) =
        digest.dropWhile (· == 0) := botan.encode_decode digest
    rw [hencode]
    exact dropWhile_zero_eq_self_iff digest

/-- Read in the other order, a digest is hashed as it is only if it reads the same both ways. -/
theorem encode_decodeFlip_iff (digest : List UInt8) :
    botan.encode (decodeFlip botan digest) = digest ↔
      digest.reverse = digest ∧ digest.getLast? ≠ some 0 := by
  rw [decodeFlip, botan.encode_decode]
  constructor
  · intro h
    have hsuffix := List.dropWhile_suffix (l := digest.reverse) (· == (0 : UInt8))
    have hsame : digest.reverse.dropWhile (· == 0) = digest.reverse :=
      hsuffix.eq_of_length (by rw [h, List.length_reverse])
    refine ⟨hsame.symm.trans h, ?_⟩
    rwa [dropWhile_zero_eq_self_iff, List.head?_reverse] at hsame
  · rintro ⟨hpalindrome, hlast⟩
    rw [(dropWhile_zero_eq_self_iff _).2 (by rwa [List.head?_reverse]), hpalindrome]

/-- The digests that a server hashes as they are, when it reads a client proof. -/
def ProofKept (compliance : Compliance) (digest : List UInt8) : Prop :=
  match compliance with
  | .wow => digest.getLast? ≠ some 0
  | .rfc5054 => digest.reverse = digest ∧ digest.getLast? ≠ some 0

theorem hashOne_decodeFlip_iff (compliance : Compliance) (digest : List UInt8) :
    hashOne botan compliance (.bigInt (decodeFlip botan digest)) = digest ↔
      ProofKept compliance digest := by
  cases compliance with
  | wow => exact encodeFlip_decodeFlip_iff botan digest
  | rfc5054 => exact encode_decodeFlip_iff botan digest

theorem length_shaInterleave {S : Int} {key : List UInt8} (h : shaInterleave botan S = some key) :
    key.length = 40 := by
  have hpairs (G H : List UInt8) :
      ((G.zip H).flatMap fun p => [p.1, p.2]).length = 2 * min G.length H.length := by
    rw [List.length_flatMap, ← List.length_zip]
    induction G.zip H with
    | nil => rfl
    | cons p ps ih =>
      rw [List.map_cons, List.sum_cons, ih, List.length_cons]
      simp only [List.length_cons, List.length_nil]
      omega
  unfold shaInterleave at h
  simp only [Option.ite_none_left_eq_some] at h
  obtain ⟨-, hkey⟩ := h
  cases hkey
  refine (hpairs _ _).trans ?_
  rw [botan.length_sha1, botan.length_sha1]
  rfl

theorem Client.sessionKey_wow {c : Client} (hwow : c.compliance = .wow) (B : Int)
    (username password : List UInt8) (salt : Int) :
    ∃ S, c.sessionKey botan B username password salt =
      (shaInterleave botan S).map fun key => botan.decode key.reverse := by
  unfold Client.sessionKey
  simp only [hwow]
  exact ⟨_, rfl⟩

theorem Server.sessionKey_wow {s s' : Server} (hwow : s.compliance = .wow) {A sessionKey : Int}
    (h : s.sessionKey botan A = .ok sessionKey s') :
    s'.compliance = .wow ∧ ∃ S key, shaInterleave botan S = some key ∧
      sessionKey = botan.decode key.reverse := by
  unfold Server.sessionKey at h
  split at h
  · cases h
  · simp only [hwow] at h
    obtain ⟨hkey, rfl⟩ := Outcome.ofOption_eq_ok.1 h
    obtain ⟨key, hinterleave, rfl⟩ := Option.map_eq_some_iff.1 hkey
    exact ⟨rfl, _, key, hinterleave, rfl⟩

/-- **Digests hashed again.** What `generate_x` hashes of `H(username:password)`, what the server
hashes of a client proof and what both hash of the session key of `Wow` is the digest itself exactly
if its most significant byte is not zero, and, for a proof under `RFC5054`, if it also reads the
same in both orders. -/
theorem digests_hashed_in_full :
    (∀ compliance username password salt,
      let digest := botan.sha1 (username ++ [58] ++ password)
      let hashed := hashOne botan compliance (.bigInt (readHash botan compliance digest))
      generateX botan username password salt compliance =
          readHash botan compliance
            (botan.sha1 (hashOne botan compliance (.bigInt salt) ++ hashed)) ∧
        (hashed = digest ↔ leading compliance digest ≠ some 0)) ∧
    (∀ (server : Server) N g salt I A B K compliance sessionKey,
      let message := List.zipWith (· ^^^ ·) (botan.sha1 (encodeFlip botan N))
          (botan.sha1 (encodeFlip botan g)) ++ botan.sha1 I ++ encodeFlip botan salt ++
        encodeFlip botan A ++ encodeFlip botan B ++ encodeFlip botan K
      let digest := botan.sha1 message
      let clientProof := generateClientProof botan N g salt I A B K compliance
      let hashed := hashOne botan server.compliance (.bigInt clientProof)
      server.proof botan clientProof sessionKey =
          readHash botan server.compliance
            (botan.sha1 (hashOne botan server.compliance (.bigInt server.A) ++ hashed ++
              hashOne botan server.compliance (.bigInt sessionKey))) ∧
        (hashed = digest ↔ ProofKept server.compliance digest)) ∧
    (∀ (client : Client) B username password salt, client.compliance = .wow →
      ∃ S, client.sessionKey botan B username password salt =
        (shaInterleave botan S).map fun key => botan.decode key.reverse) ∧
    (∀ (server server' : Server) A sessionKey, server.compliance = .wow →
      server.sessionKey botan A = .ok sessionKey server' →
      server'.compliance = .wow ∧ ∃ S key, shaInterleave botan S = some key ∧
        sessionKey = botan.decode key.reverse) ∧
    (∀ (server : Server) S key N g salt I A B compliance clientProof, server.compliance = .wow →
      shaInterleave botan S = some key →
      let sessionKey := botan.decode key.reverse
      let hashed := encodeFlip botan sessionKey
      key.length = 40 ∧
        generateClientProof botan N g salt I A B sessionKey compliance =
          decodeFlip botan (botan.sha1 (List.zipWith (· ^^^ ·) (botan.sha1 (encodeFlip botan N))
            (botan.sha1 (encodeFlip botan g)) ++ botan.sha1 I ++ encodeFlip botan salt ++
            encodeFlip botan A ++ encodeFlip botan B ++ hashed)) ∧
        server.proof botan clientProof sessionKey =
          decodeFlip botan (botan.sha1 (encodeFlip botan server.A ++
            encodeFlip botan clientProof ++ hashed)) ∧
        (hashed = key ↔ key.getLast? ≠ some 0)) := by
  refine ⟨?_, ?_, ?_, ?_, ?_⟩
  · intro compliance username password salt digest hashed
    exact ⟨generateX_eq botan username password salt compliance,
      hashOne_readHash_iff botan compliance digest⟩
  · intro server N g salt I A B K compliance sessionKey message digest clientProof hashed
    refine ⟨?_, hashOne_decodeFlip_iff botan server.compliance digest⟩
    simp [Server.proof, sha1Hash_eq, hashed]
  · intro client B username password salt hwow
    exact Client.sessionKey_wow botan hwow B username password salt
  · intro server server' A sessionKey hwow hok
    exact Server.sessionKey_wow botan hwow hok
  · intro server S key N g salt I A B compliance clientProof hwow hkey sessionKey hashed
    refine ⟨length_shaInterleave botan hkey, rfl, ?_, encodeFlip_decodeFlip_iff botan key⟩
    rw [Server.proof, sha1Hash_eq, hwow]
    simp [readHash, hashOne, hashed]

end Digests

-- of "A:AY" 19 bytes are hashed again
theorem generateX_hashes_nineteen :
    let botan := Botan.standard
    let digest := botan.sha1 [65, 58, 65, 89]
    let hashed := hashOne botan .wow (.bigInt (readHash botan .wow digest))
    (∀ salt, generateX botan [65] [65, 89] salt .wow =
        readHash botan .wow (botan.sha1 (hashOne botan .wow (.bigInt salt) ++ hashed))) ∧
      digest.length = 20 ∧ hashed.length = 19 := by
  intro botan digest hashed
  refine ⟨fun salt => generateX_eq botan [65] [65, 89] salt .wow, botan.length_sha1 _, ?_⟩
  have hhashed : hashed = (digest.reverse.dropWhile (· == 0)).reverse :=
    encodeFlip_decodeFlip botan digest
  rw [hhashed]
  decide +kernel

end KeycapRoot.Network.Srp6
