import KeycapRoot.Cryptography.OTP

/-!
# Validating codes

`validate` compares a code with the codes of three time steps, and up to eight characters and at
times that a `double` holds these are what `generate` gives at the time and half a minute before and
after it (`validate_iff`). It takes the number of digits from the code it is given. So a code of
nine characters makes it index outside the table of powers (`validate_returns_iff`), and a code of
one digit can be accepted (`validate_six_digits_iff`).
-/

namespace KeycapRoot.Cryptography.TOTP

/-! ## The time step -/

/-- Up to 2^53 a `double` holds every integer. -/
theorem toDouble_of_le {n : Nat} (h : n ≤ 2 ^ 53) : toDouble n = n := by
  rcases Nat.lt_or_eq_of_le h with hlt | rfl
  · have he : n.log2 - 52 = 0 := by
      by_cases hzero : n = 0
      · subst hzero
        rfl
      · have := (Nat.log2_lt hzero).2 hlt
        omega
    unfold toDouble
    rw [he]
    simp [Nat.mod_one]
  · rfl

theorem toNat_toUInt64 {x : Int64} (h : 0 ≤ x.toInt) : (x.toUInt64.toNat : Int) = x.toInt := by
  have hbits : x.toInt = if 2 * x.toUInt64.toNat < 2 ^ 64 then (x.toUInt64.toNat : Int)
      else (x.toUInt64.toNat : Int) - (2 ^ 64 : Nat) := BitVec.toInt_eq_toNat_cond _
  have hlt := x.toUInt64.toNat_lt
  split at hbits
  · exact hbits.symm
  · omega

theorem ofInt_natCast (n : Nat) : UInt64.ofInt n = UInt64.ofNat n := by
  rw [← UInt64.toNat_inj, UInt64.ofInt, UInt64.toNat_ofNat', UInt64.toNat_ofNat']
  omega

/-- The counter of a round is the time step of the time moved by the round. -/
theorem timeStep_eq {now : Int64} (hnonneg : 0 ≤ now.toInt) (hmax : now.toInt ≤ 30 * 2 ^ 53)
    (i : Int) : timeStep now.toUInt64 i = UInt64.ofInt (now.toInt / 30 + i) := by
  have hnow := toNat_toUInt64 hnonneg
  have hquotient : (((now.toUInt64 / 30).toNat : Nat) : Int) = now.toInt / 30 := by
    rw [UInt64.toNat_div, Int.natCast_ediv, hnow]
    rfl
  rw [timeStep, toDouble_of_le (by omega), UInt64.ofInt_add, ← hquotient, ofInt_natCast]

/-- The generator's counter. -/
theorem generate_eq (mac : Mac) (key : List Char) {t : Int64} (ht : 0 ≤ t.toInt)
    (numDigits : Nat) :
    generate mac key t 0 30 numDigits =
      HOTP.generate mac key (UInt64.ofInt (t.toInt / 30)) numDigits := by
  have hlt := t.toInt_lt
  have hzero : (0 : Int64).toInt = 0 := rfl
  have hthirty : (30 : Int64).toInt = 30 := rfl
  have hdiv : t.toInt.tdiv 30 = t.toInt / 30 := Int.tdiv_eq_ediv_of_nonneg ht
  unfold generate
  rw [hzero, hthirty, Int.sub_zero, timeT, if_pos ⟨by omega, hlt⟩]
  simp only [bind, Except.bind]
  rw [quotient, if_neg (by decide), hdiv, timeT, if_pos ⟨by omega, by omega⟩]

/-! ## The loop -/

section Rounds

variable (mac : Mac) {key code : List Char} {now : UInt64}

/-- Where all codes are generated the loop looks for the one that it was given. -/
theorem validateFrom_of_ok (codes : Int → List Char)
    (hcodes : ∀ i, HOTP.generate mac key (timeStep now i) code.length = .ok (codes i))
    (rounds : List Int) :
    validateFrom mac key code now rounds = .ok (decide (∃ i ∈ rounds, code = codes i)) := by
  induction rounds with
  | nil => simp [validateFrom]
  | cons i rounds ih =>
    rw [validateFrom, hcodes, ih]
    simp only [bind, Except.bind]
    by_cases h : code = codes i
    · simp [h, pure, Except.pure]
    · simp [h]

theorem validateFrom_of_error {fault : Fault} {i : Int} {rounds : List Int}
    (h : HOTP.generate mac key (timeStep now i) code.length = .error fault) :
    validateFrom mac key code now (i :: rounds) = .error fault := by
  rw [validateFrom, h]
  rfl

end Rounds

/-- The rounds of the loop. -/
def rounds : List Int := [-1, 0, 1]

/-- The code of a round. -/
def codeAt (mac : Mac) (secret : List UInt8) (now : Int64) (numDigits : Nat) (i : Int) :
    List Char :=
  Decimal.fixed numDigits (HOTP.truncated
    (mac.hmacSha1 secret (BigEndian.encode 8 (timeStep now.toUInt64 i).toNat)) % 10 ^ numDigits)

/-- What `validate` does: the key is refused, or the code has too many digits, or it is compared
with the codes of the three rounds. -/
inductive Validated (mac : Mac) (key code : List Char) (now : Int64) : Except Fault Bool → Prop
  | refused {what : String} (hkey : mac.secret key = .error what) :
      Validated mac key code now (.error (.exception what))
  | undefined {secret : List UInt8} (hkey : mac.secret key = .ok secret)
      (hlong : 8 < code.length) : Validated mac key code now (.error .undefined)
  | accepted {secret : List UInt8} (hkey : mac.secret key = .ok secret)
      (hshort : code.length ≤ 8)
      (hcode : ∃ i ∈ rounds, code = codeAt mac secret now code.length i) :
      Validated mac key code now (.ok true)
  | rejected {secret : List UInt8} (hkey : mac.secret key = .ok secret)
      (hshort : code.length ≤ 8)
      (hcode : ¬ ∃ i ∈ rounds, code = codeAt mac secret now code.length i) :
      Validated mac key code now (.ok false)

theorem validated (mac : Mac) (key code : List Char) (now : Int64) :
    Validated mac key code now (validate mac key code now) := by
  unfold validate
  cases hkey : mac.secret key with
  | error what =>
    rw [validateFrom_of_error mac (HOTP.generate_throws mac hkey _ _)]
    exact .refused hkey
  | ok secret =>
    by_cases hshort : code.length ≤ 8
    · have hloop := validateFrom_of_ok mac (codeAt mac secret now code.length)
        (fun i => HOTP.generate_ok mac hkey (timeStep now.toUInt64 i) hshort) rounds
      by_cases hcode : ∃ i ∈ rounds, code = codeAt mac secret now code.length i
      · rw [decide_eq_true hcode] at hloop
        exact hloop ▸ .accepted hkey hshort hcode
      · rw [decide_eq_false hcode] at hloop
        exact hloop ▸ .rejected hkey hshort hcode
    · have hlong := Nat.lt_of_not_le hshort
      rw [validateFrom_of_error mac (HOTP.generate_undefined mac hkey _ hlong)]
      exact .undefined hkey hlong

/-- A code is accepted if the key and its length are, and it is the code of a round. -/
theorem validate_eq_true_iff {mac : Mac} {key code : List Char} {now : Int64} :
    validate mac key code now = .ok true ↔ ∃ secret, mac.secret key = .ok secret ∧
      code.length ≤ 8 ∧ ∃ i ∈ rounds, code = codeAt mac secret now code.length i := by
  have hcases := validated mac key code now
  generalize validate mac key code now = verdict at *
  cases hcases with
  | refused hkey => simp [hkey]
  | undefined hkey hlong => exact iff_of_false (by simp) fun ⟨_, _, hshort, _⟩ => by omega
  | accepted hkey hshort hcode => exact iff_of_true rfl ⟨_, hkey, hshort, hcode⟩
  | rejected hkey hshort hnone =>
    refine iff_of_false (by simp) ?_
    rintro ⟨secret, hkey', -, hcode⟩
    cases hkey.symm.trans hkey'
    exact hnone hcode

/-! ## The three times -/

/-- The times that the generator is compared at. -/
theorem generate_eq_round (mac : Mac) (key : List Char) {now t : Int64} {i : Int}
    (hmin : 30 ≤ now.toInt) (hmax : now.toInt ≤ 30 * 2 ^ 53) (ht : t.toInt = now.toInt + 30 * i)
    (hi : -1 ≤ i) (numDigits : Nat) :
    generate mac key t 0 30 numDigits =
      HOTP.generate mac key (timeStep now.toUInt64 i) numDigits := by
  have hquotient : t.toInt / 30 = now.toInt / 30 + i := by omega
  rw [generate_eq mac key (by omega), timeStep_eq (by omega) hmax, hquotient]

/-- **Validation.** At a time whose steps a `double` can hold, `validate` accepts a code of up to
eight characters exactly if it is the code of the time, of half a minute before or of half a minute
later. -/
theorem validate_iff (mac : Mac) (key code : List Char) {now : Int64} (hmin : 30 ≤ now.toInt)
    (hmax : now.toInt ≤ 30 * 2 ^ 53) (h8 : code.length ≤ 8) :
    validate mac key code now = .ok true ↔
      ∃ t ∈ [now - 30, now, now + 30], generate mac key t 0 30 code.length = .ok code := by
  have hthirty : (30 : Int64).toInt = 30 := rfl
  have hbefore : (now - 30).toInt = now.toInt + 30 * (-1) := by
    rw [Int64.toInt_sub, hthirty, Int.bmod_eq_of_le (by omega) (by omega)]
    rfl
  have hlater : (now + 30).toInt = now.toInt + 30 * 1 := by
    rw [Int64.toInt_add, hthirty, Int.bmod_eq_of_le (by omega) (by omega)]
    rfl
  have hrounds : (∃ t ∈ [now - 30, now, now + 30], generate mac key t 0 30 code.length = .ok code) ↔
      ∃ i ∈ rounds,
        HOTP.generate mac key (timeStep now.toUInt64 i) code.length = .ok code := by
    simp only [rounds, List.mem_cons, List.not_mem_nil, or_false, exists_eq_or_imp, exists_eq_left]
    rw [generate_eq_round mac key hmin hmax hbefore (by decide),
      generate_eq_round mac key hmin hmax (i := 0) (by omega) (by decide),
      generate_eq_round mac key hmin hmax hlater (by decide)]
  rw [hrounds, validate_eq_true_iff]
  constructor
  · rintro ⟨secret, hkey, -, i, hi, hcode⟩
    refine ⟨i, hi, ?_⟩
    rw [HOTP.generate_ok mac hkey _ h8]
    exact congrArg Except.ok hcode.symm
  · rintro ⟨i, hi, hgenerate⟩
    cases hkey : mac.secret key with
    | error what =>
      rw [HOTP.generate_throws mac hkey] at hgenerate
      cases hgenerate
    | ok secret =>
      rw [HOTP.generate_ok mac hkey _ h8] at hgenerate
      exact ⟨secret, rfl, h8, i, hi, (Except.ok.inj hgenerate).symm⟩

/-- The code of the test at second 59: "94287082". -/
def testCode : List Char := ['9', '4', '2', '8', '7', '0', '8', '2']

theorem generate_testCode : generate .standard testKey 59 0 30 8 = .ok testCode := by
  rw [generate_eq .standard testKey (by decide), HOTP.generate_ok .standard secret_testKey _
    (by decide)]
  apply congrArg Except.ok
  decide +kernel

theorem validate_iff_sample : validate .standard testKey testCode 59 = .ok true :=
  (validate_iff .standard testKey testCode (by decide) (by decide) (by decide)).2
    ⟨59, by decide, generate_testCode⟩

/-! ## Codes of any length -/

section Lengths

variable (mac : Mac) (key code : List Char) (now : Int64)

/-- **Lengths.** `validate` returns true or false exactly for keys that HMAC can be set to and codes
of at most eight characters; with such a key and a longer code it indexes outside the table. -/
theorem validate_returns_iff :
    ((∃ b, validate mac key code now = .ok b) ↔
      (∃ secret, mac.secret key = .ok secret) ∧ code.length ≤ 8) ∧
    (validate mac key code now = .error .undefined ↔
      (∃ secret, mac.secret key = .ok secret) ∧ 8 < code.length) := by
  have hcases := validated mac key code now
  generalize validate mac key code now = verdict at *
  cases hcases with
  | refused hkey => simp [hkey]
  | undefined hkey hlong => simp [hkey, hlong]
  | accepted hkey hshort hcode => simp [hkey, hshort]
  | rejected hkey hshort hcode => simp [hkey, hshort]

end Lengths

/-- Nine characters. -/
theorem nine_digits_undefined :
    validate .standard testKey ('1' :: testCode) 59 = .error .undefined ∧
      ¬ ∃ b, validate .standard testKey ('1' :: testCode) 59 = .ok b := by
  have hcases := validated .standard testKey ('1' :: testCode) 59
  generalize validate .standard testKey ('1' :: testCode) 59 = verdict at *
  cases hcases with
  | refused hkey => simp [secret_testKey] at hkey
  | undefined hkey hlong => simp
  | accepted hkey hshort hcode => exact absurd hshort (by decide)
  | rejected hkey hshort hcode => exact absurd hshort (by decide)

/-! ## Codes that are accepted -/

section Accepted

variable {mac : Mac} {key code : List Char} {now : Int64}

/-- A code that is accepted is what some number is written as. -/
theorem eq_fixed_of_validate (h : validate mac key code now = .ok true) :
    ∃ n, code = Decimal.fixed code.length n := by
  obtain ⟨secret, -, -, i, -, hcode⟩ := validate_eq_true_iff.1 h
  exact ⟨_, hcode⟩

end Accepted

/-- An HMAC whose digests are truncated to one number. -/
def constantHmac (n : Nat) (_key _message : List UInt8) : List UInt8 :=
  BigEndian.encode 4 n ++ List.replicate 16 0

theorem length_constantHmac (n : Nat) (key message : List UInt8) :
    (constantHmac n key message).length = 20 := by
  rw [constantHmac, List.length_append, BigEndian.length_encode, List.length_replicate]

theorem truncated_constantHmac {n : Nat} (hn : n < 2 ^ 31) (key message : List UInt8) :
    HOTP.truncated (constantHmac n key message) = n := by
  have hlast : (constantHmac n key message).getLastD 0 = 0 := by
    simp [constantHmac, List.getLastD_eq_getLast?, List.getLast?_append]
  unfold HOTP.truncated
  rw [hlast]
  change BigEndian.decode ((BigEndian.encode 4 n ++ List.replicate 16 0).take 4) % 2 ^ 31 = n
  rw [List.take_left' (BigEndian.length_encode 4 n), BigEndian.decode_encode]
  omega

/-- Such an HMAC can make a code of any digits be accepted, with a key that it takes. -/
theorem validate_constantHmac {mac : Mac} {key : List Char} {secret : List UInt8}
    (hkey : mac.secret key = .ok secret) {code : List Char} (hne : code ≠ [])
    (hlength : code.length ≤ 8) (hdigits : ∀ c ∈ code, c.isDigit = true) (now : Int64) :
    validate (mac.withHmac (constantHmac (Nat.ofDigitChars 10 code 0)) (length_constantHmac _))
      key code now = .ok true := by
  have hlt := Decimal.ofDigitChars_lt hdigits
  have hle : 10 ^ code.length ≤ 10 ^ 8 := Nat.pow_le_pow_right (by decide) hlength
  refine validate_eq_true_iff.2 ⟨secret, hkey, hlength, 0, by decide, ?_⟩
  rw [codeAt, Mac.hmacSha1_withHmac, truncated_constantHmac (by omega), Nat.mod_eq_of_lt hlt,
    Decimal.fixed_ofDigitChars hne hdigits]

/-- With a key that HMAC is set to and at any time, a code of each length is accepted. -/
theorem exists_accepted {mac : Mac} {key : List Char} {secret : List UInt8}
    (hkey : mac.secret key = .ok secret) (now : Int64) {n : Nat} (hpos : 1 ≤ n) (h8 : n ≤ 8) :
    ∃ code, code.length = n ∧ validate mac key code now = .ok true := by
  have hlength : (codeAt mac secret now n 0).length = n :=
    Decimal.length_fixed hpos (Nat.mod_lt _ (Nat.pow_pos (by decide)))
  refine ⟨_, hlength, validate_eq_true_iff.2 ⟨secret, hkey, by omega, 0, by decide, ?_⟩⟩
  rw [hlength]

/-- **Short codes.** At any time and for any text of a key, no HMAC makes `validate` accept a code
of less than six characters, exactly if the code is no such code, since it has six characters or
more, or none, or one that is no digit, or if the key is refused. And whatever HMAC is, with a key
that it takes there are codes of one to five digits that are accepted at any time. -/
theorem validate_six_digits_iff (mac : Mac) (key code : List Char) (now : Int64) :
    ((∀ hmac hlength, validate (mac.withHmac hmac hlength) key code now = .ok true →
        6 ≤ code.length) ↔
      6 ≤ code.length ∨ code = [] ∨ (∃ c ∈ code, c.isDigit = false) ∨
        ∃ what, mac.secret key = .error what) ∧
    ∀ secret, mac.secret key = .ok secret → ∀ n, 1 ≤ n → n ≤ 5 →
      ∃ short, short.length = n ∧ validate mac key short now = .ok true := by
  refine ⟨⟨?_, ?_⟩, fun secret hkey n hpos h5 => exists_accepted hkey now hpos (by omega)⟩
  · intro h
    by_contra hshort
    simp only [not_or, not_exists, not_and, Bool.not_eq_false] at hshort
    obtain ⟨hlength, hne, hdigits, hkey⟩ := hshort
    cases hsecret : mac.secret key with
    | error what => exact hkey what hsecret
    | ok secret =>
      exact hlength (h _ _ (validate_constantHmac hsecret hne (by omega) hdigits now))
  · intro hcode hmac hlength haccepted
    obtain ⟨n, hn⟩ := eq_fixed_of_validate haccepted
    rcases hcode with hsix | rfl | ⟨c, hc, hdigit⟩ | ⟨what, hkey⟩
    · exact hsix
    · exact absurd hn.symm (Decimal.fixed_ne_nil _ n)
    · rw [hn] at hc
      rw [Decimal.isDigit_of_mem_fixed c hc] at hdigit
      cases hdigit
    · obtain ⟨secret, htaken, -⟩ := validate_eq_true_iff.1 haccepted
      rw [Mac.secret_withHmac, hkey] at htaken
      cases htaken

/-- The last digit of the code of the test is accepted. -/
theorem one_digit_accepted : validate .standard testKey ['2'] 59 = .ok true ∧ ['2'].length = 1 := by
  have hround : codeAt .standard testSecret 59 1 0 = ['2'] := by
    rw [codeAt, timeStep_eq (by decide) (by decide)]
    decide +kernel
  exact ⟨validate_eq_true_iff.2
    ⟨testSecret, secret_testKey, by decide, 0, by decide, hround.symm⟩, rfl⟩

end KeycapRoot.Cryptography.TOTP
