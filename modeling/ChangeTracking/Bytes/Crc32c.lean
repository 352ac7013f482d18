import ChangeTracking.Bytes.LittleEndian

/-!
# CRC-32C

The cyclic redundancy check over the Castagnoli polynomial, with bits taken least significant
first, all bits set at the start and all bits flipped at the end.  The register moves by single
bits; a byte is eight of these moves after the byte was added to the register.
-/

namespace ChangeTracking.Crc32c

/-- The polynomial, least significant coefficient in the top bit. -/
def polynomial : UInt32 := 0x82f63b78

/-- One move of the register: down by a bit, and the polynomial added if a one fell out. -/
def shift (register : UInt32) : UInt32 :=
  if register &&& 1 = 1 then (register >>> 1) ^^^ polynomial else register >>> 1

/-- Eight moves of the register. -/
def shiftByte (register : UInt32) : UInt32 :=
  shift (shift (shift (shift (shift (shift (shift (shift register)))))))

/-- The register after one more byte. -/
def feed (register : UInt32) (b : UInt8) : UInt32 :=
  shiftByte (register ^^^ b.toUInt32)

/-- The register after the given bytes. -/
def run (register : UInt32) (bytes : Bytes) : UInt32 :=
  bytes.foldl feed register

/-- The checksum of a string of bytes. -/
def checksum (bytes : Bytes) : UInt32 :=
  ~~~ (run 0xffffffff bytes)

/-- The checksum of a string of bytes that goes on with `bytes`, from the checksum so far. -/
def append (checksum : UInt32) (bytes : Bytes) : UInt32 :=
  ~~~ (run (~~~ checksum) bytes)

/-- Bytes may be fed in portions. -/
theorem run_append (register : UInt32) (a b : Bytes) :
    run register (a ++ b) = run (run register a) b := by
  simp [run, List.foldl_append]

theorem append_checksum (a b : Bytes) : append (checksum a) b = checksum (a ++ b) := by
  rw [append, checksum, checksum, UInt32.not_not, run_append]

theorem append_append (c : UInt32) (a b : Bytes) : append (append c a) b = append c (a ++ b) := by
  rw [append, append, append, UInt32.not_not, run_append]

end ChangeTracking.Crc32c
