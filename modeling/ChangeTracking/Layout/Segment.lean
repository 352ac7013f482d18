import ChangeTracking.Layout.Location

/-!
# Segment files

A segment file as it was found: which part of which fork it holds, where it is, and how large it was
when it was looked at.  Only whole blocks count, and no more than a full segment has.

Block numbers are 32-bit words.  There are 32768 segments that have numbers for all their blocks;
a file with a higher segment number gets the last block number for all of them.
-/

namespace ChangeTracking

/-- A segment file of a fork. -/
structure Segment where
  relation : Relation
  fork : Fork
  /-- The number of the segment in its fork. -/
  index : UInt32
  /-- Where the file was found. -/
  path : Path
  /-- Where the file belongs, below the data directory. -/
  relativePath : String
  /-- The size in bytes. -/
  size : Nat
  deriving DecidableEq

namespace Segment

/-- The highest block number. -/
def lastBlock : Nat := UInt32.size - 1

/-- The number of whole blocks. -/
def blockCount (s : Segment) : Nat := min (s.size / blockSize) blocksPerSegment

/-- The number of the first block. -/
def baseBlock (s : Segment) : Nat := min (s.index.toNat * blocksPerSegment) lastBlock

/-- The number of the block at an offset in the segment. -/
def blockNumber (s : Segment) (offset : Nat) : UInt32 :=
  UInt32.ofNat (min (s.baseBlock + offset) lastBlock)

/-- The block at an offset in the segment. -/
def block (s : Segment) (offset : Nat) : Block :=
  ⟨s.relation, s.fork, s.blockNumber offset⟩

end Segment

end ChangeTracking
