/-!
# Sets of block offsets

The changed blocks of one segment file, as a string of bits: block `n` is bit `n % 8` of byte
`n / 8`, counted from the least significant bit, and the string is only as long as the highest
member needs.  A set made by `insert` from the empty one therefore has one form only.
-/

namespace ChangeTracking

/-- A set of block offsets as bits. -/
structure Bitmap where
  bits : Array UInt8
  deriving DecidableEq

namespace Bitmap

/-- The set without members. -/
def empty : Bitmap := ⟨#[]⟩

/-- The byte in which only the bit of the given block is set. -/
def mask (n : Nat) : UInt8 := 1 <<< UInt8.ofNat (n % 8)

/-- Bytes, with as many zero bytes behind them as it takes to have the given number. -/
def padTo (size : Nat) (bytes : Array UInt8) : Array UInt8 :=
  bytes ++ Array.replicate (size - bytes.size) 0

/-- The set with one more member. -/
def insert (s : Bitmap) (n : Nat) : Bitmap :=
  ⟨(padTo (n / 8 + 1) s.bits).modify (n / 8) (· ||| mask n)⟩

/-- The set with the given members. -/
def ofList (members : List Nat) : Bitmap := members.foldl insert empty

/-- Whether a block is a member. -/
def contains (s : Bitmap) (n : Nat) : Bool :=
  match s.bits[n / 8]? with
  | some byte => byte &&& mask n != 0
  | none => false

/-- Whether there is no member. -/
def isEmpty (s : Bitmap) : Bool := s.bits.all (· == 0)

/-- The positions of the set bits of a byte, in ascending order. -/
def bitsOf (byte : UInt8) : List Nat :=
  (List.range 8).filter fun bit => byte &&& mask bit != 0

/-- The number of members. -/
def size (s : Bitmap) : Nat :=
  s.bits.foldl (fun n byte => n + (bitsOf byte).length) 0

/-- The members in ascending order. -/
def toList (s : Bitmap) : List Nat :=
  s.bits.toList.zipIdx.flatMap fun (byte, i) => (bitsOf byte).map fun bit => i * 8 + bit

/-- The bits as bytes. -/
def toBytes (s : Bitmap) : List UInt8 := s.bits.toList

end Bitmap

end ChangeTracking
