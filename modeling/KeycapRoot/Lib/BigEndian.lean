import KeycapRoot.Lib.LittleEndian

/-!
# Big-endian bytes

`encode w n` lists the `w` low base-256 digits of `n`, most significant first, and `decode` reads
such a list back. They are the little-endian digits the other way round.
-/

namespace BigEndian

/-- The `w` low base-256 digits of `n`. -/
def encode (w n : Nat) : List UInt8 :=
  (List.range w).reverse.map fun i => UInt8.ofNat (n / 256 ^ i)

/-- The number whose base-256 digits are the bytes. -/
def decode (bytes : List UInt8) : Nat := bytes.foldl (fun n b => 256 * n + b.toNat) 0

theorem reverse_littleEndian (w n : Nat) : (LittleEndian.encode w n).reverse = encode w n := by
  have hdigits (w n : Nat) : LittleEndian.encode w n =
      (List.range w).map fun i => UInt8.ofNat (n / 256 ^ i) := by
    induction w generalizing n with
    | zero => rfl
    | succ w ih =>
      rw [LittleEndian.encode, ih, List.range_succ_eq_map, List.map_cons, List.map_map]
      simp [Function.comp_def, Nat.pow_succ', Nat.div_div_eq_div_mul]
  rw [hdigits, encode, List.map_reverse]

theorem decode_append_singleton (bytes : List UInt8) (b : UInt8) :
    decode (bytes ++ [b]) = 256 * decode bytes + b.toNat := by
  simp [decode]

theorem decode_reverse (bytes : List UInt8) : decode bytes.reverse = LittleEndian.decode bytes := by
  induction bytes with
  | nil => rfl
  | cons b bytes ih =>
    rw [List.reverse_cons, decode_append_singleton, ih, LittleEndian.decode, Nat.add_comm]

@[simp] theorem length_encode (w n : Nat) : (encode w n).length = w := by
  simp [encode]

@[simp] theorem decode_encode (w n : Nat) : decode (encode w n) = n % 256 ^ w := by
  rw [← reverse_littleEndian, decode_reverse, LittleEndian.decode_encode]

/-- Numbers of equally many digits are equal when the digits are. -/
theorem decode_inj {bytes bytes' : List UInt8} (hlength : bytes.length = bytes'.length) :
    decode bytes = decode bytes' ↔ bytes = bytes' := by
  refine ⟨fun h => ?_, congrArg decode⟩
  rw [← List.reverse_reverse bytes, ← List.reverse_reverse bytes', decode_reverse,
    decode_reverse] at h
  exact List.reverse_inj.1 (LittleEndian.decode_inj (by simpa using hlength) h)

/-- Four digits put together by shifts; only the first may be larger than a byte. -/
theorem or_four {a b c d : Nat} (hb : b < 2 ^ 8) (hc : c < 2 ^ 8) (hd : d < 2 ^ 8) :
    a <<< 24 ||| b <<< 16 ||| c <<< 8 ||| d = ((a * 2 ^ 8 + b) * 2 ^ 8 + c) * 2 ^ 8 + d := by
  have hfirst : a <<< 24 ||| b <<< 16 = (a * 2 ^ 8 + b) <<< 16 := by
    rw [← Nat.shiftLeft_add_eq_or_of_lt (by rw [Nat.shiftLeft_eq]; omega : b <<< 16 < 2 ^ 24)]
    simp only [Nat.shiftLeft_eq]
    omega
  have hsecond : (a * 2 ^ 8 + b) <<< 16 ||| c <<< 8 = ((a * 2 ^ 8 + b) * 2 ^ 8 + c) <<< 8 := by
    rw [← Nat.shiftLeft_add_eq_or_of_lt (by rw [Nat.shiftLeft_eq]; omega : c <<< 8 < 2 ^ 16)]
    simp only [Nat.shiftLeft_eq]
    omega
  rw [hfirst, hsecond, ← Nat.shiftLeft_add_eq_or_of_lt hd, Nat.shiftLeft_eq]

end BigEndian
