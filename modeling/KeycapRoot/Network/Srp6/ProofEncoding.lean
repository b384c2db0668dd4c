import KeycapRoot.Network.Srp6.Credentials

/-!
# The encoding of the client proof

The hash of `sha1_hash` depends on the compliance mode: integers go in as `hash_one` encodes them
for it, and the digest is read in the same order. `generate_client_proof` is given the mode and does
not look at it. Its proof is that of `Wow`, and so under `RFC5054` it is the proof of the mode only
where the one digest happens to be the other one turned round (`generateClientProof_iff_wow`).
-/

namespace KeycapRoot.Network.Srp6

section Proof

variable (botan : Botan)

/-- What is hashed for a client proof under a compliance mode. -/
def proofArguments (compliance : Compliance) (N g salt : Int) (I : List UInt8)
    (A B sessionKey : Int) : List HashArgument :=
  let nHash := botan.sha1 (hashOne botan compliance (.bigInt N))
  let gHash := botan.sha1 (hashOne botan compliance (.bigInt g))
  [.string (List.zipWith (· ^^^ ·) nHash gHash), .string (botan.sha1 I), .bigInt salt, .bigInt A,
    .bigInt B, .bigInt sessionKey]

/-- The digest of it. -/
def proofDigest (compliance : Compliance) (N g salt : Int) (I : List UInt8)
    (A B sessionKey : Int) : List UInt8 :=
  botan.sha1 ((proofArguments botan compliance N g salt I A B sessionKey).flatMap
    (hashOne botan compliance))

theorem generateClientProof_eq (N g salt : Int) (I : List UInt8) (A B sessionKey : Int)
    (compliance : Compliance) :
    generateClientProof botan N g salt I A B sessionKey compliance =
      decodeFlip botan (proofDigest botan .wow N g salt I A B sessionKey) := by
  simp [generateClientProof, proofDigest, proofArguments, hashOne]

/-- Read in the other order a digest is the same integer as another one exactly when it is the
other one turned round. -/
theorem decodeFlip_eq_decode_iff {digest digest' : List UInt8}
    (hlength : digest.length = digest'.length) :
    decodeFlip botan digest = botan.decode digest' ↔ digest.reverse = digest' := by
  rw [decodeFlip, botan.decode_eq, botan.decode_eq, Int.natCast_inj, bigEndian_eq_decode,
    bigEndian_eq_decode]
  exact BigEndian.decode_inj (by rw [List.length_reverse, hlength])

/-- The client proof is the hash of the mode exactly under `Wow`, and under `RFC5054` where the one
digest is the other turned round. -/
theorem generateClientProof_iff (N g salt : Int) (I : List UInt8) (A B sessionKey : Int)
    (compliance : Compliance) :
    generateClientProof botan N g salt I A B sessionKey compliance =
        sha1Hash botan compliance (proofArguments botan compliance N g salt I A B sessionKey) ↔
      compliance = .wow ∨
        (proofDigest botan .wow N g salt I A B sessionKey).reverse =
          proofDigest botan .rfc5054 N g salt I A B sessionKey := by
  rw [generateClientProof_eq, sha1Hash_eq]
  cases compliance with
  | wow => simp only [true_or, iff_true]; rfl
  | rfc5054 =>
    have hlength : (proofDigest botan .wow N g salt I A B sessionKey).length =
        (proofDigest botan .rfc5054 N g salt I A B sessionKey).length :=
      (botan.length_sha1 _).trans (botan.length_sha1 _).symm
    simp only [reduceCtorEq, false_or]
    exact decodeFlip_eq_decode_iff botan hlength

end Proof

/-- A digest that does not read the same both ways. -/
def oneSided : List UInt8 := 1 :: List.replicate 19 0

/-- **The client proof.** Whatever SHA-1 computes, the client proof is the hash of the compliance
mode, if and only if the mode is `Wow`. -/
theorem generateClientProof_iff_wow (N g salt : Int) (I : List UInt8) (A B sessionKey : Int)
    (compliance : Compliance) :
    ((∀ botan, generateClientProof botan N g salt I A B sessionKey compliance =
        sha1Hash botan compliance (proofArguments botan compliance N g salt I A B sessionKey)) ↔
      compliance = .wow) ∧
    ∀ botan, generateClientProof botan N g salt I A B sessionKey compliance =
        sha1Hash botan compliance (proofArguments botan compliance N g salt I A B sessionKey) ↔
      compliance = .wow ∨
        (proofDigest botan .wow N g salt I A B sessionKey).reverse =
          proofDigest botan .rfc5054 N g salt I A B sessionKey := by
  refine ⟨⟨fun h => ?_, fun hwow botan => ?_⟩, fun botan => ?_⟩
  · have hlength : ∀ bytes : List UInt8, oneSided.length = 20 := fun _ => rfl
    -- a hash that is the same for all messages
    rcases (generateClientProof_iff (withSha1 (fun _ => oneSided) hlength) N g salt I A B
      sessionKey compliance).1 (h _) with hwow | hreverse
    · exact hwow
    · exact absurd hreverse (by decide : oneSided.reverse ≠ oneSided)
  · exact (generateClientProof_iff botan N g salt I A B sessionKey compliance).2 (Or.inl hwow)
  · exact generateClientProof_iff botan N g salt I A B sessionKey compliance

/-- A proof under `RFC5054` that is not the hash of the mode. -/
theorem rfc5054_proof_differs :
    generateClientProof Botan.standard 23 5 7 [65] 8 16 300 .rfc5054 ≠
      sha1Hash Botan.standard .rfc5054
        (proofArguments Botan.standard .rfc5054 23 5 7 [65] 8 16 300) := by
  rw [Ne, generateClientProof_iff]
  decide +kernel

end KeycapRoot.Network.Srp6
