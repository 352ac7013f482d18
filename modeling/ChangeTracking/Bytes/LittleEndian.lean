/-!
# Words as bytes

A word is stored least significant byte first, in as many bytes as its width asks for.  Bytes are
lists, so that an image is put together with `++` and taken apart with `take` and `drop`.
-/

namespace ChangeTracking

/-- A string of bytes. -/
abbrev Bytes := List UInt8

namespace Bytes

/-- The `width` low bytes of `n`, least significant first. -/
def ofNat : (width n : Nat) → Bytes
  | 0, _ => []
  | width + 1, n => UInt8.ofNat n :: ofNat width (n / 256)

/-- The number that the bytes stand for, least significant first. -/
def toNat : Bytes → Nat
  | [] => 0
  | b :: rest => b.toNat + 256 * toNat rest

/-- The four bytes of a 32-bit word. -/
def ofWord32 (w : UInt32) : Bytes := ofNat 4 w.toNat

/-- The eight bytes of a 64-bit word. -/
def ofWord64 (w : UInt64) : Bytes := ofNat 8 w.toNat

/-- The first four bytes as a 32-bit word. -/
def word32 (bytes : Bytes) : UInt32 := UInt32.ofNat (toNat (bytes.take 4))

/-- The first eight bytes as a 64-bit word. -/
def word64 (bytes : Bytes) : UInt64 := UInt64.ofNat (toNat (bytes.take 8))

end Bytes

end ChangeTracking
