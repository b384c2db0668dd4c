import Mathlib.Data.Nat.Digits.Lemmas
import KeycapRoot.Network.Srp6.ProofEncoding

/-!
# What the hashes tell apart

The SRP6 code puts texts and numbers of any length into a hash one behind the other. So a hash can
tell them apart only as far as the joined bytes do: a username and a password can be cut at another
colon (`exponents_equal_iff`), and of the numbers in a client proof bytes can move from one to the
next, unless their lengths are known (`client_proofs_equal_iff`).
-/

namespace KeycapRoot.Network.Srp6

/-! ## Credentials -/

/-- The texts of one pair are those of the other one, cut at a later colon. -/
def CutLater (username password username' password' : List UInt8) : Prop :=
  ∃ between, username' = username ++ 58 :: between ∧ password = between ++ 58 :: password'

theorem credentials_eq_iff (username password username' password' : List UInt8) :
    credentials username password = credentials username' password' ↔
      (username = username' ∧ password = password') ∨
        CutLater username password username' password' ∨
        CutLater username' password' username password := by
  unfold credentials CutLater
  rw [List.append_assoc, List.append_assoc, List.singleton_append, List.singleton_append,
    List.append_eq_append_iff]
  constructor
  · rintro (⟨between, rfl, hrest⟩ | ⟨between, rfl, hrest⟩)
    · cases between with
      | nil =>
        rw [List.nil_append, List.cons_inj_right] at hrest
        exact Or.inl ⟨by simp, hrest⟩
      | cons colon between =>
        rw [List.cons_append, List.cons_eq_cons] at hrest
        obtain ⟨rfl, hrest⟩ := hrest
        exact Or.inr (Or.inl ⟨between, rfl, hrest⟩)
    · cases between with
      | nil =>
        rw [List.nil_append, List.cons_inj_right] at hrest
        exact Or.inl ⟨by simp, hrest.symm⟩
      | cons colon between =>
        rw [List.cons_append, List.cons_eq_cons] at hrest
        obtain ⟨rfl, hrest⟩ := hrest
        exact Or.inr (Or.inr ⟨between, rfl, hrest⟩)
  · rintro (⟨rfl, rfl⟩ | ⟨between, rfl, rfl⟩ | ⟨between, rfl, rfl⟩)
    · exact Or.inl ⟨[], by simp⟩
    · exact Or.inl ⟨58 :: between, rfl, rfl⟩
    · exact Or.inr ⟨58 :: between, rfl, rfl⟩

/-- **Exponents.** Whatever SHA-1 computes, two pairs of credentials have the same exponent `x` if
and only if they are the same pair, or the same text cut at two colons. -/
theorem exponents_equal_iff (username password username' password' : List UInt8) (salt : Int)
    (compliance : Compliance) :
    (∀ botan, generateX botan username password salt compliance =
        generateX botan username' password' salt compliance) ↔
      (username = username' ∧ password = password') ∨
        CutLater username password username' password' ∨
        CutLater username' password' username password := by
  rw [← credentials_eq_iff]
  constructor
  · intro h
    by_contra hne
    obtain ⟨botan, hx⟩ := exists_generateX_ne hne salt compliance
    exact hx (h botan)
  · intro h botan
    rw [generateX_eq, generateX_eq, h]

/-! ## Client proofs -/

/-- The bytes of a number, the least significant one first. -/
def littleBytes (n : Nat) : List UInt8 := (bigEndianBytes n).reverse

/-- What is behind the hashes of the group and of the username in a client proof. -/
def transcript (salt A B sessionKey : Nat) : List UInt8 :=
  littleBytes salt ++ (littleBytes A ++ (littleBytes B ++ littleBytes sessionKey))

theorem littleBytes_eq (n : Nat) : littleBytes n = (Nat.digits 256 n).map UInt8.ofNat := by
  rw [littleBytes, bigEndianBytes, List.map_reverse, List.reverse_reverse]

theorem littleBytes_inj {m n : Nat} (h : littleBytes m = littleBytes n) : m = n := by
  have hbytes := congrArg bigEndian (List.reverse_injective h)
  rwa [bigEndian_bigEndianBytes, bigEndian_bigEndianBytes] at hbytes

/-- The last byte of a number can go in front of the digits of another one. -/
theorem littleBytes_moved {m n : Nat} (hlow : n % 256 ≠ 0) :
    littleBytes (m + 256 ^ (littleBytes m).length * (n % 256)) ++ littleBytes (n / 256) =
      littleBytes m ++ littleBytes n := by
  have hdigit : Nat.digits 256 (n % 256) = [n % 256] :=
    Nat.digits_of_lt 256 _ hlow (Nat.mod_lt n (by decide))
  have hfirst : Nat.digits 256 n = [n % 256] ++ Nat.digits 256 (n / 256) :=
    Nat.digits_def' (by decide) (Nat.pos_of_ne_zero fun hzero => hlow (by rw [hzero]))
  rw [littleBytes_eq, littleBytes_eq, littleBytes_eq, littleBytes_eq, List.length_map,
    ← Nat.digits_append_digits (by decide), hdigit, hfirst, List.map_append, List.map_append,
    List.append_assoc]

section Proofs

/-- What is hashed in front of it. -/
def proofFront (botan : Botan) (N g : Int) (I : List UInt8) : List UInt8 :=
  List.zipWith (· ^^^ ·) (botan.sha1 (encodeFlip botan N)) (botan.sha1 (encodeFlip botan g)) ++
    botan.sha1 I

theorem length_proofFront (botan : Botan) (N g : Int) (I : List UInt8) :
    (proofFront botan N g I).length = 40 := by
  simp [proofFront, botan.length_sha1]

theorem generateClientProof_transcript (botan : Botan) (N g : Int) (salt : Nat) (I : List UInt8)
    (A B sessionKey : Nat) (compliance : Compliance) :
    generateClientProof botan N g salt I A B sessionKey compliance =
      readHash botan .wow
        (botan.sha1 (proofFront botan N g I ++ transcript salt A B sessionKey)) := by
  have hflip (n : Nat) : encodeFlip botan n = littleBytes n := by
    rw [encodeFlip, botan.encode_eq, Int.natAbs_natCast, littleBytes]
  simp only [generateClientProof, proofFront, hflip, transcript, List.append_assoc]
  rfl

/-- A hash of the bytes behind the first forty. -/
def hashOfTail (tail message : List UInt8) : List UInt8 :=
  if message.drop 40 = tail then sameBytes 1 else sameBytes 2

theorem length_hashOfTail (tail message : List UInt8) : (hashOfTail tail message).length = 20 := by
  unfold hashOfTail
  split <;> exact List.length_replicate

/-- A hash of the tail tells two transcripts apart. -/
theorem transcript_eq_of_proofs {N g : Int} {I : List UInt8}
    {salt A B sessionKey salt' A' B' sessionKey' : Nat} {compliance : Compliance}
    (h : ∀ botan, generateClientProof botan N g salt I A B sessionKey compliance =
      generateClientProof botan N g salt' I A' B' sessionKey' compliance) :
    transcript salt A B sessionKey = transcript salt' A' B' sessionKey' := by
  let botan := withSha1 (hashOfTail (transcript salt A B sessionKey)) (length_hashOfTail _)
  have hsha (tail : List UInt8) : botan.sha1 (proofFront botan N g I ++ tail) =
      if tail = transcript salt A B sessionKey then sameBytes 1 else sameBytes 2 := by
    change hashOfTail _ _ = _
    rw [hashOfTail, List.drop_left' (length_proofFront botan N g I)]
  have hdigests := h botan
  simp only [generateClientProof_transcript, hsha, if_pos] at hdigests
  by_contra hne
  rw [if_neg (Ne.symm hne)] at hdigests
  have hsame := readHash_inj botan (leading_sameBytes .wow (by decide))
    (leading_sameBytes .wow (by decide)) hdigests
  exact absurd hsame (by decide)

theorem transcript_inj {salt A B sessionKey salt' A' B' sessionKey' : Nat}
    (hsalt : (littleBytes salt).length = (littleBytes salt').length)
    (hA : (littleBytes A).length = (littleBytes A').length)
    (hB : (littleBytes B).length = (littleBytes B').length)
    (h : transcript salt A B sessionKey = transcript salt' A' B' sessionKey') :
    salt = salt' ∧ A = A' ∧ B = B' ∧ sessionKey = sessionKey' := by
  obtain ⟨hsalts, hrest⟩ := List.append_inj h hsalt
  obtain ⟨hAs, hrest⟩ := List.append_inj hrest hA
  obtain ⟨hBs, hkeys⟩ := List.append_inj hrest hB
  exact ⟨littleBytes_inj hsalts, littleBytes_inj hAs, littleBytes_inj hBs, littleBytes_inj hkeys⟩

/-- **Client proofs.** Whatever SHA-1 computes, two proofs for one group and username are equal if
and only if the bytes of their numbers are, joined in turn. So they tell the numbers apart where the
lengths of the first three are known, and where they are not, the last byte of one number can be
read as the first one of the next. -/
theorem client_proofs_equal_iff (N g : Int) (I : List UInt8)
    (salt A B sessionKey salt' A' B' sessionKey' : Nat) (compliance : Compliance) :
    let proof (botan : Botan) (salt A B sessionKey : Nat) :=
      generateClientProof botan N g salt I A B sessionKey compliance
    ((∀ botan, proof botan salt A B sessionKey = proof botan salt' A' B' sessionKey') ↔
      transcript salt A B sessionKey = transcript salt' A' B' sessionKey') ∧
    ((littleBytes salt).length = (littleBytes salt').length →
      (littleBytes A).length = (littleBytes A').length →
      (littleBytes B).length = (littleBytes B').length →
      ((∀ botan, proof botan salt A B sessionKey = proof botan salt' A' B' sessionKey') ↔
        salt = salt' ∧ A = A' ∧ B = B' ∧ sessionKey = sessionKey')) ∧
    (A % 256 ≠ 0 → ∀ botan,
      proof botan (salt + 256 ^ (littleBytes salt).length * (A % 256)) (A / 256) B sessionKey =
        proof botan salt A B sessionKey) := by
  intro proof
  have hequal {salt A B sessionKey salt' A' B' sessionKey' : Nat}
      (h : transcript salt A B sessionKey = transcript salt' A' B' sessionKey') (botan : Botan) :
      proof botan salt A B sessionKey = proof botan salt' A' B' sessionKey' := by
    simp only [proof, generateClientProof_transcript, h]
  refine ⟨⟨transcript_eq_of_proofs, hequal⟩, ?_, ?_⟩
  · intro hsalt hA hB
    constructor
    · intro h
      exact transcript_inj hsalt hA hB (transcript_eq_of_proofs h)
    · rintro ⟨rfl, rfl, rfl, rfl⟩ botan
      rfl
  · intro hlow
    refine hequal ?_
    rw [transcript, transcript, ← List.append_assoc, littleBytes_moved hlow, List.append_assoc]

end Proofs

end KeycapRoot.Network.Srp6
