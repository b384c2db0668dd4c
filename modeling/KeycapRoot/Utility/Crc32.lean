import KeycapRoot.Network.MemoryStream

/-!
# Checksums

`crc32` feeds the bytes of its arguments to a `boost::crc_32_type`, one argument after the other.
Boost is not part of this repository: a `Checksum` stands for what it computes from all bytes
processed since its reset. Results hold for any function of them, or name what they need of it.
`crc32Ieee` is the function that Boost is documented to compute.
-/

namespace KeycapRoot.Utility

open KeycapRoot.Network LittleEndian

/-- The checksum that `boost::crc_32_type` has after a reset and these bytes. -/
abbrev Checksum := List UInt8 → UInt32

/-- `impl::hash<T>`: the bytes of the object. -/
def hash {α : Type} [Scalar α] (value : α) : List UInt8 := Scalar.toBytes value

/-- `impl::hash<memory_stream>`: `size()` bytes from `data()` on, which is the start of the buffer
wherever the read position is. -/
def hashStream (stream : MemoryStream) : List UInt8 := stream.buffer.take stream.size

/-- `crc32(args...)`, given the bytes that each argument is hashed as. -/
def crc32 (checksum : Checksum) (args : List (List UInt8)) : UInt32 := checksum args.flatten

/-- `validate_crc32(crc, args...)`. -/
def validateCrc32 (checksum : Checksum) (crc : UInt32) (args : List (List UInt8)) : Bool :=
  crc == crc32 checksum args

theorem hashStream_of_fresh {stream : MemoryStream} (h : stream.readPosition = 0) :
    hashStream stream = stream.buffer := by
  have hin : stream.Inside := by
    rw [MemoryStream.Inside, h]
    exact Nat.zero_le _
  rw [hashStream, hin.size_eq, MemoryStream.unread, h, List.drop_zero, List.take_length]

/-- Eight shifts of the reflected polynomial of CRC-32. -/
def crcShift (crc : UInt32) : UInt32 :=
  (List.range 8).foldl (fun crc _ => (crc >>> 1) ^^^ (if crc &&& 1 = 1 then 0xEDB88320 else 0)) crc

/-- CRC-32 as `boost::crc_32_type` is documented to compute it. -/
def crc32Ieee : Checksum := fun bytes =>
  bytes.foldl (fun crc b => crcShift (crc ^^^ b.toUInt32)) 0xFFFFFFFF ^^^ 0xFFFFFFFF

-- "Hello World", from the tests of the repository
example : crc32Ieee [72, 101, 108, 108, 111, 32, 87, 111, 114, 108, 100] = 0x4A17B156 := by
  decide +kernel

end KeycapRoot.Utility
