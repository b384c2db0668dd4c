import KeycapRoot.Lib.ShiftRegister
import KeycapRoot.Utility.Crc32

/-!
# What a checksum finds

CRC-32 is a shift register of 32 bits that is fed the bits of each byte, the lowest one first
(`toBitVec_crc32Ieee`). So the checksums of two texts that differ within no more than 32 consecutive
bits are different (`crc32Ieee_findsBursts`).
-/

namespace KeycapRoot.Utility

open ShiftRegister

/-- The bits of a byte, the lowest one first. -/
def bits (b : UInt8) : List Bool := (List.range 8).map fun i => b.toBitVec.getLsbD i

def bitsOf (bytes : List UInt8) : List Bool := bytes.flatMap bits

@[simp] theorem length_bits (b : UInt8) : (bits b).length = 8 := rfl

theorem bitsOf_cons (b : UInt8) (bytes : List UInt8) :
    bitsOf (b :: bytes) = bits b ++ bitsOf bytes :=
  List.flatMap_cons

/-- The reflected polynomial of CRC-32. -/
def crcTaps : BitVec 32 := 0xEDB88320#32

theorem ofBits_bits (b : UInt8) : ofBits 32 (bits b) = b.toUInt32.toBitVec := by
  apply BitVec.eq_of_getLsbD_eq
  intro i hi
  rw [getLsbD_ofBits, decide_eq_true hi, Bool.true_and, UInt8.toBitVec_toUInt32,
    BitVec.getLsbD_setWidth, decide_eq_true hi, Bool.true_and, bits, List.getElem?_map]
  by_cases hbyte : i < 8
  · rw [List.getElem?_range hbyte]
    rfl
  · rw [List.getElem?_eq_none (by simpa using Nat.le_of_not_lt hbyte), BitVec.getLsbD_of_ge _ _
      (Nat.le_of_not_lt hbyte)]
    rfl

/-- One turn of the loop of `crcShift`. -/
theorem toBitVec_turn (crc : UInt32) :
    ((crc >>> 1) ^^^ (if crc &&& 1 = 1 then 0xEDB88320 else 0)).toBitVec =
      shift crcTaps crc.toBitVec := by
  have hlow : crc &&& 1 = 1 ↔ crc.toBitVec.getLsbD 0 = true := by
    rw [← UInt32.toBitVec_inj, UInt32.toBitVec_and]
    change crc.toBitVec &&& 1#32 = 1#32 ↔ _
    rw [BitVec.and_one_eq_setWidth_ofBool_getLsbD]
    cases crc.toBitVec.getLsbD 0 <;> decide
  rw [shift, UInt32.toBitVec_xor]
  by_cases h : crc &&& 1 = 1
  · rw [if_pos h, if_pos (hlow.1 h)]
    rfl
  · rw [if_neg h, if_neg (fun hbit => h (hlow.2 hbit))]
    exact BitVec.xor_zero

theorem toBitVec_crcShift (crc : UInt32) :
    (crcShift crc).toBitVec = (shift crcTaps)^[8] crc.toBitVec := by
  have hturns : ∀ (turns : List Nat) (crc : UInt32),
      (turns.foldl (fun (crc : UInt32) _ =>
          (crc >>> 1) ^^^ (if crc &&& 1 = 1 then 0xEDB88320 else 0)) crc).toBitVec =
        (shift crcTaps)^[turns.length] crc.toBitVec := by
    intro turns
    induction turns with
    | nil => exact fun _ => rfl
    | cons turn turns ih =>
      intro crc
      rw [List.foldl_cons, ih, toBitVec_turn, List.length_cons, Function.iterate_succ_apply]
  exact hturns (List.range 8) crc

/-- A byte is fed to the register bit by bit. -/
theorem toBitVec_crcShift_xor (crc : UInt32) (b : UInt8) :
    (crcShift (crc ^^^ b.toUInt32)).toBitVec = feed crcTaps crc.toBitVec (bits b) := by
  rw [toBitVec_crcShift, UInt32.toBitVec_xor, feed_eq (by simp), ofBits_bits]
  rfl

theorem toBitVec_crc32Ieee (bytes : List UInt8) :
    (crc32Ieee bytes).toBitVec =
      feed crcTaps (BitVec.allOnes 32) (bitsOf bytes) ^^^ BitVec.allOnes 32 := by
  have hfold : ∀ (bytes : List UInt8) (crc : UInt32),
      (bytes.foldl (fun crc b => crcShift (crc ^^^ b.toUInt32)) crc).toBitVec =
        feed crcTaps crc.toBitVec (bitsOf bytes) := by
    intro bytes
    induction bytes with
    | nil => exact fun _ => rfl
    | cons b bytes ih =>
      intro crc
      rw [List.foldl_cons, ih, toBitVec_crcShift_xor, bitsOf_cons, feed_append]
  rw [crc32Ieee, UInt32.toBitVec_xor, hfold]
  rfl

/-- Texts that differ within 32 consecutive bits have different checksums. -/
def FindsBursts (checksum : Checksum) : Prop :=
  ∀ {bytes bytes' : List UInt8}, Differ 32 (bitsOf bytes) (bitsOf bytes') →
    checksum bytes ≠ checksum bytes'

/-- **Bursts.** CRC-32 finds every burst of 32 bits. -/
theorem crc32Ieee_findsBursts : FindsBursts crc32Ieee := by
  intro bytes bytes' h heq
  have hsame := congrArg UInt32.toBitVec heq
  rw [toBitVec_crc32Ieee, toBitVec_crc32Ieee, BitVec.xor_left_inj] at hsame
  exact feed_ne_of_differ (by decide) h _ hsame

end KeycapRoot.Utility
