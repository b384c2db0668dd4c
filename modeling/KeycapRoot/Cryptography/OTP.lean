import Mathlib.Algebra.Group.Int.Defs
import KeycapRoot.Cryptography.Mac
import KeycapRoot.Lib.Decimal
import KeycapRoot.Lib.Outcome

/-!
# One-time passwords

A code is four bytes of the HMAC of a counter, read as a number without its sign bit and reduced to
the digits that are asked for. The place of the four bytes is in the last byte of the digest; the
power of ten comes from a table of nine, so that with up to eight digits everything that is indexed
is there (`generate_digits`).
-/

namespace KeycapRoot.Cryptography

namespace HOTP

def digitsPower : List Int32 :=
  [1, 10, 100, 1000, 10000, 100000, 1000000, 10000000, 100000000]

/-- An array indexed without a check. -/
def index {α : Type} (array : List α) (i : Nat) : Except Fault α :=
  match array[i]? with
  | some a => .ok a
  | none => .error .undefined

/-- A byte as an `int`. -/
def promote (b : UInt8) : Int32 := Int32.ofNat b.toNat

/-- The `int` that four bytes are put together to. -/
def binary (b₀ b₁ b₂ b₃ : UInt8) : Int32 :=
  ((promote b₀ &&& 0x7f) <<< 24) ||| ((promote b₁ &&& 0xff) <<< 16) |||
    ((promote b₂ &&& 0xff) <<< 8) ||| (promote b₃ &&& 0xff)

/-- The operator `%`. -/
def remainder (a b : Int32) : Except Fault Int32 :=
  if b = 0 then .error .undefined else .ok (a % b)

/-- `std::to_string(value)`. -/
def toString (value : Int32) : List Char :=
  match value.toInt with
  | .ofNat n => Nat.toDigits 10 n
  | .negSucc n => '-' :: Nat.toDigits 10 (n + 1)

/-- The loop that puts zeros in front. -/
def pad (numDigits : Nat) (result : List Char) : List Char :=
  if result.length < numDigits then pad numDigits ('0' :: result) else result
termination_by numDigits - result.length

/-- `HOTP::generate(key, counter, num_digits)`. -/
def generate (mac : Mac) (key : List Char) (counter : UInt64) (numDigits : Nat := 6) :
    Except Fault (List Char) := do
  let secret ← (mac.secret key).mapError .exception
  -- the bytes of the counter as they lie in memory
  let text := (LittleEndian.Scalar.toBytes counter).reverse
  let hash := mac.hmacSha1 secret text
  let last ← index hash (hash.length - 1)
  let offset := (last &&& 0x0F).toNat
  let b₀ ← index hash offset
  let b₁ ← index hash (offset + 1)
  let b₂ ← index hash (offset + 2)
  let b₃ ← index hash (offset + 3)
  let power ← index digitsPower numDigits
  let otp ← remainder (binary b₀ b₁ b₂ b₃) power
  return pad numDigits (toString otp)

/-! ## The number -/

theorem toNat_and_mask (b : UInt8) {k : Nat} (hk : k ≤ 8) :
    (promote b &&& Int32.ofNat (2 ^ k - 1)).toBitVec.toNat = b.toNat % 2 ^ k := by
  have hb := b.toNat_lt
  have hle : 2 ^ k ≤ 2 ^ 8 := Nat.pow_le_pow_right (by decide) hk
  rw [Int32.toBitVec_and, promote, Int32.toBitVec_ofNat', Int32.toBitVec_ofNat', BitVec.toNat_and,
    BitVec.toNat_ofNat, BitVec.toNat_ofNat, Nat.mod_eq_of_lt (by omega),
    Nat.mod_eq_of_lt (by omega), Nat.and_two_pow_sub_one_eq_mod]

theorem toNat_shiftLeft {x : Int32} {k : Nat} (hk : k < 32)
    (hx : x.toBitVec.toNat < 2 ^ (32 - k)) :
    (x <<< Int32.ofNat k).toBitVec.toNat = x.toBitVec.toNat <<< k := by
  have hshift : ∀ k : Fin 32, (Int32.ofNat k).toBitVec.smod 32 = BitVec.ofNat 32 k := by decide
  have hlt : x.toBitVec.toNat * 2 ^ k < 2 ^ 32 := by
    calc x.toBitVec.toNat * 2 ^ k
        < 2 ^ (32 - k) * 2 ^ k := Nat.mul_lt_mul_of_pos_right hx (Nat.two_pow_pos k)
      _ = 2 ^ 32 := by rw [← Nat.pow_add, Nat.sub_add_cancel (by omega)]
  rw [Int32.toBitVec_shiftLeft, hshift ⟨k, hk⟩, BitVec.shiftLeft_eq', BitVec.toNat_shiftLeft,
    BitVec.toNat_ofNat, Nat.mod_eq_of_lt (by omega : k < 2 ^ 32), Nat.mod_eq_of_lt]
  rwa [Nat.shiftLeft_eq]

/-- A byte that is masked and shifted into its place. -/
theorem toNat_place (b : UInt8) {k s : Nat} (hk : k ≤ 8) (hs : s + k ≤ 32) (hs' : s < 32) :
    ((promote b &&& Int32.ofNat (2 ^ k - 1)) <<< Int32.ofNat s).toBitVec.toNat =
      (b.toNat % 2 ^ k) <<< s := by
  have hlt : b.toNat % 2 ^ k < 2 ^ (32 - s) := by
    calc b.toNat % 2 ^ k < 2 ^ k := Nat.mod_lt _ (Nat.two_pow_pos k)
      _ ≤ 2 ^ (32 - s) := Nat.pow_le_pow_right (by decide) (by omega)
  rw [toNat_shiftLeft hs' (by rwa [toNat_and_mask b hk]), toNat_and_mask b hk]

/-- The four bytes are a big-endian number without its top bit. -/
theorem toInt_binary (b₀ b₁ b₂ b₃ : UInt8) :
    (binary b₀ b₁ b₂ b₃).toInt = (BigEndian.decode [b₀, b₁, b₂, b₃] % 2 ^ 31 : Nat) := by
  have hbinary : binary b₀ b₁ b₂ b₃ =
      ((promote b₀ &&& Int32.ofNat (2 ^ 7 - 1)) <<< Int32.ofNat 24) |||
        ((promote b₁ &&& Int32.ofNat (2 ^ 8 - 1)) <<< Int32.ofNat 16) |||
        ((promote b₂ &&& Int32.ofNat (2 ^ 8 - 1)) <<< Int32.ofNat 8) |||
        (promote b₃ &&& Int32.ofNat (2 ^ 8 - 1)) := rfl
  have h₁ := b₁.toNat_lt
  have h₂ := b₂.toNat_lt
  have h₃ := b₃.toNat_lt
  have hvalue : (binary b₀ b₁ b₂ b₃).toBitVec.toNat =
      BigEndian.decode [b₀, b₁, b₂, b₃] % 2 ^ 31 := by
    rw [hbinary, Int32.toBitVec_or, Int32.toBitVec_or, Int32.toBitVec_or, BitVec.toNat_or,
      BitVec.toNat_or, BitVec.toNat_or, toNat_place b₀ (by decide) (by decide) (by decide),
      toNat_place b₁ (by decide) (by decide) (by decide),
      toNat_place b₂ (by decide) (by decide) (by decide), toNat_and_mask b₃ (by decide),
      BigEndian.or_four (Nat.mod_lt _ (by decide)) (Nat.mod_lt _ (by decide))
        (Nat.mod_lt _ (by decide))]
    simp only [BigEndian.decode, List.foldl_cons, List.foldl_nil]
    omega
  rw [← Int32.toInt_toBitVec, BitVec.toInt_eq_toNat_of_lt, hvalue]
  rw [hvalue]
  omega

theorem digitsPower_eq {n : Nat} (hn : n ≤ 8) :
    ∃ power, index digitsPower n = .ok power ∧ power.toInt = (10 ^ n : Nat) := by
  have hentries : ∀ n : Fin 9, ∃ power, digitsPower[n.val]? = some power ∧
      power.toInt = (10 ^ n.val : Nat) := by
    intro n
    refine ⟨digitsPower.get n, List.getElem?_eq_getElem n.isLt, ?_⟩
    revert n
    decide
  obtain ⟨power, hentry, hvalue⟩ := hentries ⟨n, by omega⟩
  exact ⟨power, by rw [index, hentry], hvalue⟩

/-- The `int` that is left of a number modulo a power from the table. -/
theorem remainder_eq {a power : Int32} {D n : Nat} (ha : a.toInt = D)
    (hpower : power.toInt = (10 ^ n : Nat)) :
    ∃ otp, remainder a power = .ok otp ∧ otp.toInt = (D % 10 ^ n : Nat) := by
  have hne : power ≠ 0 := by
    rintro rfl
    have hpos : 0 < 10 ^ n := Nat.pow_pos (by decide)
    have hzero : ((10 ^ n : Nat) : Int) = 0 := hpower.symm
    omega
  refine ⟨a % power, if_neg hne, ?_⟩
  rw [Int32.toInt_mod, ha, hpower]
  rfl

/-! ## The digits -/

theorem pad_eq (numDigits : Nat) (result : List Char) :
    pad numDigits result = List.leftpad numDigits '0' result := by
  fun_induction pad numDigits result with
  | case1 result hlt ih =>
    rw [ih, List.leftpad, List.leftpad, List.length_cons, ← Nat.sub_sub]
    obtain ⟨k, hk⟩ : ∃ k, numDigits - result.length = k + 1 :=
      ⟨numDigits - result.length - 1, by omega⟩
    rw [hk, Nat.add_sub_cancel, List.replicate_succ', List.append_assoc, List.singleton_append]
  | case2 result hge =>
    rw [List.leftpad, Nat.sub_eq_zero_of_le (by omega), List.replicate_zero, List.nil_append]

theorem pad_toString {value : Int32} {n : Nat} (hvalue : value.toInt = n) (numDigits : Nat) :
    pad numDigits (toString value) = Decimal.fixed numDigits n := by
  rw [pad_eq, toString, hvalue]
  rfl

/-- The number that a digest is truncated to. -/
def truncated (digest : List UInt8) : Nat :=
  let offset := (digest.getLastD 0).toNat % 16
  BigEndian.decode ((digest.drop offset).take 4) % 2 ^ 31

theorem index_getElem {α : Type} (array : List α) {i : Nat} (h : i < array.length) :
    index array i = .ok array[i] := by
  rw [index, List.getElem?_eq_getElem h]

/-! ## Codes -/

section Generate

variable (mac : Mac) {key : List Char}

/-- The part of `generate` behind the digest. -/
theorem generate_of_digest {secret digest : List UInt8} (hkey : mac.secret key = .ok secret)
    {counter : UInt64}
    (hdigest : mac.hmacSha1 secret (BigEndian.encode 8 counter.toNat) = digest)
    (numDigits : Nat) :
    ∃ b : Int32, b.toInt = (truncated digest : Nat) ∧
      generate mac key counter numDigits = (index digitsPower numDigits).bind fun power =>
        (remainder b power).map fun otp => pad numDigits (toString otp) := by
  have hlength : digest.length = 20 := hdigest ▸ mac.length_hmacSha1 _ _
  have hmessage : (LittleEndian.Scalar.toBytes counter).reverse =
      BigEndian.encode 8 counter.toNat := BigEndian.reverse_littleEndian 8 counter.toNat
  have hlast : digest.length - 1 < digest.length := by omega
  have hoffset : (digest[digest.length - 1] &&& 0x0F).toNat =
      (digest.getLastD 0).toNat % 16 := by
    rw [List.getLastD_eq_getLast?, List.getLast?_eq_getElem?, List.getElem?_eq_getElem hlast,
      Option.getD_some, UInt8.toNat_and]
    exact Nat.and_two_pow_sub_one_eq_mod _ 4
  have hle : (digest.getLastD 0).toNat % 16 ≤ 15 := by omega
  generalize hwhere : (digest.getLastD 0).toNat % 16 = offset at *
  have hfour : (digest.drop offset).take 4 = [digest[offset], digest[offset + 1],
      digest[offset + 2], digest[offset + 3]] := by
    rw [List.drop_eq_getElem_cons (by omega), List.drop_eq_getElem_cons (by omega),
      List.drop_eq_getElem_cons (by omega), List.drop_eq_getElem_cons (by omega)]
    rfl
  refine ⟨binary digest[offset] digest[offset + 1] digest[offset + 2] digest[offset + 3], ?_, ?_⟩
  · rw [toInt_binary, truncated, hwhere, hfour]
  · unfold generate
    rw [hkey, hmessage]
    simp only [Except.mapError, hdigest, hoffset, index_getElem digest hlast, bind, Except.bind,
      index_getElem digest (by omega : offset < digest.length),
      index_getElem digest (by omega : offset + 1 < digest.length),
      index_getElem digest (by omega : offset + 2 < digest.length),
      index_getElem digest (by omega : offset + 3 < digest.length)]
    rfl

/-- The code of a number. -/
theorem generate_ok {secret : List UInt8} (hkey : mac.secret key = .ok secret) (counter : UInt64)
    {numDigits : Nat} (h8 : numDigits ≤ 8) :
    generate mac key counter numDigits = .ok (Decimal.fixed numDigits
      (truncated (mac.hmacSha1 secret (BigEndian.encode 8 counter.toNat)) % 10 ^ numDigits)) := by
  obtain ⟨b, hb, hgenerate⟩ := generate_of_digest mac hkey rfl numDigits
  obtain ⟨power, hindex, hpower⟩ := digitsPower_eq h8
  obtain ⟨otp, hotp, hvalue⟩ := remainder_eq hb hpower
  rw [hgenerate, hindex, Except.bind, hotp, Except.map, pad_toString hvalue]

/-- More digits than the table has powers. -/
theorem generate_undefined {secret : List UInt8} (hkey : mac.secret key = .ok secret)
    (counter : UInt64) {numDigits : Nat} (h8 : 8 < numDigits) :
    generate mac key counter numDigits = .error .undefined := by
  obtain ⟨b, -, hgenerate⟩ := generate_of_digest mac hkey rfl numDigits
  have hindex : index digitsPower numDigits = .error .undefined := by
    rw [index, List.getElem?_eq_none (Nat.succ_le_of_lt h8)]
  rw [hgenerate, hindex, Except.bind]

theorem generate_throws {what : String} (hkey : mac.secret key = .error what) (counter : UInt64)
    (numDigits : Nat) : generate mac key counter numDigits = .error (.exception what) := by
  unfold generate
  rw [hkey]
  rfl

end Generate

/-- **Codes.** With one to eight digits `generate` passes on what HMAC's key makes Botan throw, or
indexes nothing outside the digest and returns that many digits, whose value is the big-endian
number at the offset, without its top bit, modulo the power of ten. -/
theorem generate_digits (mac : Mac) (key : List Char) (counter : UInt64) {numDigits : Nat}
    (hpos : 1 ≤ numDigits) (h8 : numDigits ≤ 8) :
    (∀ what, mac.secret key = .error what →
      generate mac key counter numDigits = .error (.exception what)) ∧
    ∀ secret, mac.secret key = .ok secret →
      let digest := mac.hmacSha1 secret (BigEndian.encode 8 counter.toNat)
      let offset := (digest.getLastD 0).toNat % 16
      let D := BigEndian.decode ((digest.drop offset).take 4) % 2 ^ 31
      offset + 3 < digest.length ∧ ∃ code, generate mac key counter numDigits = .ok code ∧
        code.length = numDigits ∧ (∀ c ∈ code, c.isDigit = true) ∧
        Nat.ofDigitChars 10 code 0 = D % 10 ^ numDigits := by
  refine ⟨fun what hkey => generate_throws mac hkey counter numDigits, ?_⟩
  intro secret hkey digest offset D
  have hlength : digest.length = 20 := mac.length_hmacSha1 _ _
  have hlt : D % 10 ^ numDigits < 10 ^ numDigits := Nat.mod_lt _ (Nat.pow_pos (by decide))
  refine ⟨by omega, _, generate_ok mac hkey counter h8, ?_, ?_, ?_⟩
  · exact Decimal.length_fixed hpos hlt
  · exact Decimal.isDigit_of_mem_fixed
  · exact Decimal.ofDigitChars_fixed _ _

theorem generate_digits_sample :
    ∃ code, generate .standard testKey 1 6 = .ok code ∧ code.length = 6 ∧
      Nat.ofDigitChars 10 code 0 = 287082 := by
  obtain ⟨-, code, hcode, hlength, -, hvalue⟩ :=
    (generate_digits .standard testKey 1 (by decide : 1 ≤ 6) (by decide)).2 _ secret_testKey
  refine ⟨code, hcode, hlength, hvalue.trans ?_⟩
  decide +kernel

end HOTP

namespace TOTP

/-- A result of arithmetic in `time_t`, which must not overflow. -/
def timeT (n : Int) : Except Fault Int :=
  if -2 ^ 63 ≤ n ∧ n < 2 ^ 63 then .ok n else .error .undefined

/-- The operator `/` in `time_t`. -/
def quotient (a b : Int) : Except Fault Int :=
  if b = 0 then .error .undefined else timeT (a.tdiv b)

/-- `TOTP::generate(key, now, start, step, num_digits)`. -/
def generate (mac : Mac) (key : List Char) (now start step : Int64) (numDigits : Nat := 6) :
    Except Fault (List Char) := do
  let elapsed ← timeT (now.toInt - start.toInt)
  let counter ← quotient elapsed step.toInt
  HOTP.generate mac key (UInt64.ofInt counter) numDigits

/-- An integer as a `double`: it is rounded to 53 binary digits, halves to an even one. -/
def toDouble (n : Nat) : Nat :=
  let e := n.log2 - 52
  let q := n / 2 ^ e
  let r := n % 2 ^ e
  (if 2 ^ e < 2 * r ∨ 2 ^ e = 2 * r ∧ q % 2 = 1 then q + 1 else q) * 2 ^ e

/-- The counter of a round of the loop in `validate`. -/
def timeStep (now : UInt64) (i : Int) : UInt64 :=
  UInt64.ofNat (toDouble (now / 30).toNat) + UInt64.ofInt i

/-- The rounds of the loop. -/
def validateFrom (mac : Mac) (key code : List Char) (now : UInt64) : List Int → Except Fault Bool
  | [] => .ok false
  | i :: rounds => do
    let code_n ← HOTP.generate mac key (timeStep now i) code.length
    if code = code_n then return true
    validateFrom mac key code now rounds

/-- `TOTP::validate(key, code)` at a time. -/
def validate (mac : Mac) (key code : List Char) (time : Int64) : Except Fault Bool :=
  validateFrom mac key code time.toUInt64 [-1, 0, 1]

end TOTP

end KeycapRoot.Cryptography
