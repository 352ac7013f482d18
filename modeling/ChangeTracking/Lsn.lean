/-!
# Log positions

A position in the write-ahead log is a 64-bit word, ordered as a number.  Zero is no position: it
stands for "never", in a slot of a change map as well as for an epoch whose start is not known.
-/

namespace ChangeTracking

/-- A position in the write-ahead log. -/
structure Lsn where
  /-- The position as a byte count from the start of the log. -/
  val : UInt64
  deriving DecidableEq

namespace Lsn

/-- No position. -/
def never : Lsn := ⟨0⟩

instance : Inhabited Lsn := ⟨never⟩

/-- Whether this is a position at all. -/
def known (l : Lsn) : Bool := l.val != 0

instance : LE Lsn := ⟨fun a b => a.val ≤ b.val⟩

instance : LT Lsn := ⟨fun a b => a.val < b.val⟩

instance (a b : Lsn) : Decidable (a ≤ b) := inferInstanceAs (Decidable (a.val ≤ b.val))

instance (a b : Lsn) : Decidable (a < b) := inferInstanceAs (Decidable (a.val < b.val))

/-- The later of two positions. -/
def latest (a b : Lsn) : Lsn := if a < b then b else a

/-- The next position; the last one has none after it and stays. -/
def next (l : Lsn) : Lsn := ⟨if l.val = 0xffffffffffffffff then l.val else l.val + 1⟩

/-- The upper 32 bits. -/
def high (l : Lsn) : UInt32 := (l.val >>> 32).toUInt32

/-- The lower 32 bits. -/
def low (l : Lsn) : UInt32 := l.val.toUInt32

/-- The position with the given halves. -/
def ofHalves (high low : UInt32) : Lsn := ⟨(high.toUInt64 <<< 32) ||| low.toUInt64⟩

end Lsn

end ChangeTracking
