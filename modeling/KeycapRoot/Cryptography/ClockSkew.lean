import KeycapRoot.Cryptography.Validation

/-!
# Clocks that differ

A code is generated by one clock and validated by another. The two need not show the same time, and
neither the half minute nor the time of validation needs to be the start of a step: the code is
accepted for every key and whatever HMAC computes exactly if the clocks are no more than one step
apart (`skew_accepted_iff`). Clocks that differ by half a minute at most are.
-/

namespace KeycapRoot.Cryptography.TOTP

/-- Every code that is generated at the one time is accepted at the other one. -/
def AcceptedAcross (t now : Int64) (numDigits : Nat) : Prop :=
  ∀ mac key code, generate mac key t 0 30 numDigits = .ok code →
    validate mac key code now = .ok true

/-- The steps of two times are neighbours or the same. -/
def StepsClose (t now : Int64) : Prop := |now.toInt / 30 - t.toInt / 30| ≤ 1

/-- A MAC that marks the digest of one message. -/
def markingMac (marked : List UInt8) : Mac where
  base32Decode _ := .ok []
  setKey _ := .ok ()
  hmacSha1 secret message := constantHmac (if message = marked then 1 else 0) secret message
  length_hmacSha1 secret message := length_constantHmac _ secret message

theorem truncated_markingMac (marked secret message : List UInt8) :
    HOTP.truncated ((markingMac marked).hmacSha1 secret message) =
      if message = marked then 1 else 0 := by
  refine truncated_constantHmac ?_ secret message
  split <;> decide

/-- Counters are told apart by their bytes, as far as 64 bits do. -/
theorem encode_ofInt_inj {m n : Int} (hm : -(2 ^ 63) ≤ m) (hm' : m < 2 ^ 63) (hn : -(2 ^ 63) ≤ n)
    (hn' : n < 2 ^ 63)
    (h : BigEndian.encode 8 (UInt64.ofInt m).toNat = BigEndian.encode 8 (UInt64.ofInt n).toNat) :
    m = n := by
  have hdecode := congrArg BigEndian.decode h
  have hbound (k : Int) : (UInt64.ofInt k).toNat < 256 ^ 8 := (UInt64.ofInt k).toNat_lt
  rw [BigEndian.decode_encode, BigEndian.decode_encode, Nat.mod_eq_of_lt (hbound m),
    Nat.mod_eq_of_lt (hbound n), UInt64.ofInt, UInt64.ofInt, UInt64.toNat_ofNat',
    UInt64.toNat_ofNat'] at hdecode
  omega

section Skew

variable {t now : Int64} {numDigits : Nat}

theorem accepted_of_stepsClose (ht : 0 ≤ t.toInt) (hnow : 0 ≤ now.toInt)
    (hmax : now.toInt ≤ 30 * 2 ^ 53) (hpos : 1 ≤ numDigits) (h8 : numDigits ≤ 8)
    (hclose : StepsClose t now) : AcceptedAcross t now numDigits := by
  intro mac key code hgenerate
  rw [generate_eq mac key ht] at hgenerate
  obtain ⟨hlower, hupper⟩ := abs_le.1 hclose
  cases hkey : mac.secret key with
  | error what =>
    rw [HOTP.generate_throws mac hkey] at hgenerate
    cases hgenerate
  | ok secret =>
    rw [HOTP.generate_ok mac hkey _ h8] at hgenerate
    have hcode := (Except.ok.inj hgenerate).symm
    have hlength : code.length = numDigits := by
      rw [hcode]
      exact Decimal.length_fixed hpos (Nat.mod_lt _ (Nat.pow_pos (by decide)))
    refine validate_eq_true_iff.2 ⟨secret, hkey, by omega, t.toInt / 30 - now.toInt / 30, ?_, ?_⟩
    · simp only [rounds, List.mem_cons, List.not_mem_nil, or_false]
      omega
    · have hstep : now.toInt / 30 + (t.toInt / 30 - now.toInt / 30) = t.toInt / 30 := by omega
      rw [hlength, codeAt, timeStep_eq hnow hmax, hstep]
      exact hcode

/-- A MAC that marks the step of the one time shows that the other one is close. -/
theorem stepsClose_of_accepted (ht : 0 ≤ t.toInt) (hnow : 0 ≤ now.toInt)
    (hmax : now.toInt ≤ 30 * 2 ^ 53) (hpos : 1 ≤ numDigits) (h8 : numDigits ≤ 8)
    (haccepted : AcceptedAcross t now numDigits) : StepsClose t now := by
  let mac := markingMac (BigEndian.encode 8 (UInt64.ofInt (t.toInt / 30)).toNat)
  have hsecret : mac.secret [] = .ok [] := rfl
  have hmarked := haccepted mac [] _
    ((generate_eq _ [] ht numDigits).trans (HOTP.generate_ok _ hsecret _ h8))
  obtain ⟨secret, -, -, i, hi, hcode⟩ := validate_eq_true_iff.1 hmarked
  have hten : 10 ≤ 10 ^ numDigits := Nat.pow_le_pow_right (by decide : 0 < 10) hpos
  have hlength : (Decimal.fixed numDigits (1 % 10 ^ numDigits)).length = numDigits :=
    Decimal.length_fixed hpos (Nat.mod_lt _ (by omega))
  rw [truncated_markingMac, if_pos rfl, hlength, codeAt, truncated_markingMac,
    timeStep_eq hnow hmax] at hcode
  have hnumbers := congrArg (Nat.ofDigitChars 10 · 0) hcode
  simp only [Decimal.ofDigitChars_fixed] at hnumbers
  have hrange : -1 ≤ i ∧ i ≤ 1 := by
    simp only [rounds, List.mem_cons, List.not_mem_nil, or_false] at hi
    omega
  have hsame : now.toInt / 30 + i = t.toInt / 30 := by
    have hlt := t.toInt_lt
    split at hnumbers
    · next hmessage =>
      exact encode_ofInt_inj (by omega) (by omega) (by omega) (by omega) hmessage
    · rw [Nat.mod_eq_of_lt (by omega), Nat.zero_mod] at hnumbers
      cases hnumbers
  rw [StepsClose, abs_le]
  omega

/-- **Clock skew.** With any key and whatever HMAC computes, the codes of one to eight digits that
are generated at a time from 0 on are accepted at a time from 0 to 30 * 2^53, the last one whose
steps a `double` can hold, if and only if the half minutes that the times are in are the same or
neighbours. -/
theorem skew_accepted_iff (ht : 0 ≤ t.toInt) (hnow : 0 ≤ now.toInt)
    (hmax : now.toInt ≤ 30 * 2 ^ 53) (hpos : 1 ≤ numDigits) (h8 : numDigits ≤ 8) :
    AcceptedAcross t now numDigits ↔ StepsClose t now :=
  ⟨stepsClose_of_accepted ht hnow hmax hpos h8, accepted_of_stepsClose ht hnow hmax hpos h8⟩

end Skew

/-- The codes of second 59 are accepted from the first second up to second 89. -/
theorem skew_accepted_iff_sample :
    AcceptedAcross 59 0 8 ∧ AcceptedAcross 59 89 8 ∧ ¬ AcceptedAcross 59 90 8 := by
  refine ⟨?_, ?_, ?_⟩
  · exact (skew_accepted_iff (by decide) (by decide) (by decide) (by decide) (by decide)).2
      (by decide : |(0 : Int64).toInt / 30 - (59 : Int64).toInt / 30| ≤ 1)
  · exact (skew_accepted_iff (by decide) (by decide) (by decide) (by decide) (by decide)).2
      (by decide : |(89 : Int64).toInt / 30 - (59 : Int64).toInt / 30| ≤ 1)
  · rw [skew_accepted_iff (by decide) (by decide) (by decide) (by decide) (by decide)]
    exact (by decide : ¬ |(90 : Int64).toInt / 30 - (59 : Int64).toInt / 30| ≤ 1)

end KeycapRoot.Cryptography.TOTP
