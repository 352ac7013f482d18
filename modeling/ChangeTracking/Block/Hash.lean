import ChangeTracking.Block

/-!
# The hash of a block

A block's place in a change map follows from a 64-bit hash of its name.  Maps are kept on disk, so
the hash depends on nothing but the name.  It folds three words into one (where the relation is
stored; which relation and fork; which block) and stirs after each.
-/

namespace ChangeTracking

/-- Stirs a word: two rounds of "fold the upper bits down, multiply by an odd constant" and a last
fold.  Each of the five is a permutation of the words. -/
def stir (z : UInt64) : UInt64 :=
  let z := (z ^^^ (z >>> 30)) * 0xbf58476d1ce4e5b9
  let z := (z ^^^ (z >>> 27)) * 0x94d049bb133111eb
  z ^^^ (z >>> 31)

namespace Block

/-- The tablespace in the lower half of a word and the database in the upper. -/
def placeWord (b : Block) : UInt64 :=
  b.relation.tablespace.toUInt64 ||| (b.relation.database.toUInt64 <<< 32)

/-- The relation's number in the lower half of a word and the fork in the upper. -/
def forkWord (b : Block) : UInt64 :=
  b.relation.number.toUInt64 ||| (b.fork.index <<< 32)

/-- The hash of the block's whole name. -/
def hash (b : Block) : UInt64 :=
  stir (stir (stir b.placeWord ^^^ b.forkWord) ^^^ b.number.toUInt64)

/-- The block's slot among the given number of slots. -/
def slotIn (b : Block) (count : Nat) : Nat := b.hash.toNat % count

end Block

end ChangeTracking
