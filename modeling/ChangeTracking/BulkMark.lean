import ChangeTracking.ChangeMap
import ChangeTracking.Walk.Listing

/-!
# Marking whole directories

A directory that was copied into place brings blocks that nobody marked.  Marking it marks every
whole block of every segment file that a walk finds there.
-/

namespace ChangeTracking

/-- What was marked. -/
structure BulkStats where
  files : Nat
  blocks : Nat
  deriving DecidableEq

/-- What is marked with the given segment files. -/
def BulkStats.ofSegments (segments : List Segment) : BulkStats :=
  ⟨segments.length, (segments.map Segment.blockCount).foldl (· + ·) 0⟩

namespace ChangeMap

/-- Marks the whole blocks of a segment file. -/
def markSegment (m : ChangeMap) (l : Lsn) (s : Segment) : ChangeMap :=
  (List.range s.blockCount).foldl (fun m offset => m.mark (s.block offset) l) m

/-- Marks the whole blocks of segment files. -/
def markSegments (m : ChangeMap) (l : Lsn) (segments : List Segment) : ChangeMap :=
  segments.foldl (fun m s => m.markSegment l s) m

/-- Marks the whole blocks of the segment files below a root. -/
def markRoot (m : ChangeMap) (t : Tree) (version : String) (root : Walk.Root) (l : Lsn) :
    ChangeMap :=
  m.markSegments l (root.listing t version)

end ChangeMap

end ChangeTracking
