import ChangeTracking.Bitmap
import ChangeTracking.ChangeMap
import ChangeTracking.Walk

/-!
# Scanning for changed blocks

A scan asks a change map about the blocks of each segment file that a walk comes to, and yields a
pagemap for each file of which a block changed at or after the scan's baseline.  A segment's blocks
are asked about up to one past the last whole one, as far as the segment has room for it: a file may
be growing by a block while its size is read.

A scan goes on only as long as its map is valid.  Before each file the map is looked at, and once it
is invalid the scan ends with an error, so that the pagemaps of a replaced map are never taken for
all there are.
-/

namespace ChangeTracking

/-- The changed blocks of a segment file. -/
structure Pagemap where
  /-- Where the file belongs, below the data directory. -/
  path : String
  blocks : Bitmap
  deriving DecidableEq

/-- The offsets that a scan asks about. -/
def Segment.scannedOffsets (s : Segment) : List Nat :=
  List.range (min s.blockCount (blocksPerSegment - 1) + 1)

namespace ChangeMap

/-- Whether a block changed at or after the given position, as far as the map can tell. -/
def hasChanged (m : ChangeMap) (baseline : Lsn) (b : Block) : Bool :=
  (m.read b).known && decide (baseline ≤ m.read b)

/-- The offsets of the blocks of a segment that changed. -/
def changedOffsets (m : ChangeMap) (baseline : Lsn) (s : Segment) : List Nat :=
  s.scannedOffsets.filter fun offset => m.hasChanged baseline (s.block offset)

end ChangeMap

/-- What a scan has done so far. -/
structure ScanStats where
  /-- The files that were looked at. -/
  files : Nat
  /-- The blocks that the map was asked about. -/
  blocks : Nat
  /-- The blocks that had changed. -/
  changed : Nat
  /-- The pagemaps that were yielded. -/
  pagemaps : Nat
  /-- The bytes of these pagemaps. -/
  bytes : Nat
  deriving DecidableEq

namespace ScanStats

/-- Nothing was done. -/
def zero : ScanStats := ⟨0, 0, 0, 0, 0⟩

/-- After one more file. -/
def addFile (s : ScanStats) (blocks changed : Nat) : ScanStats :=
  { s with files := s.files + 1, blocks := s.blocks + blocks, changed := s.changed + changed }

/-- After one more pagemap. -/
def addPagemap (s : ScanStats) (bytes : Nat) : ScanStats :=
  { s with pagemaps := s.pagemaps + 1, bytes := s.bytes + bytes }

end ScanStats

/-- A scan that has come to some place. -/
structure Scan where
  baseline : Lsn
  walker : Walker
  stats : ScanStats
  finished : Bool

namespace Scan

/-- A scan that has not begun. -/
def ofWalker (baseline : Lsn) (walker : Walker) : Scan := ⟨baseline, walker, .zero, false⟩

/-- The scan at its end. -/
def finish (s : Scan) : Scan := { s with finished := true }

/-- The next pagemap or the error that ends the scan, and the scan after it; nothing at the end.
Files of which no block changed are passed over. -/
def next (t : Tree) (m : ChangeMap) (s : Scan) : Option (Except Error Pagemap) × Scan :=
  if s.finished then (none, s)
  else if !m.valid then (some (.error .disabled), s.finish)
  else
    match _hnext : s.walker.next t with
    | none => (none, s.finish)
    | some (segment, walker) =>
      let offsets := m.changedOffsets s.baseline segment
      let stats := s.stats.addFile segment.scannedOffsets.length offsets.length
      if offsets.isEmpty then next t m { s with walker := walker, stats := stats }
      else
        let blocks := Bitmap.ofList offsets
        (some (.ok ⟨segment.relativePath, blocks⟩),
          { s with walker := walker, stats := stats.addPagemap blocks.bits.size })
  termination_by (s.walker.segments t).length
  decreasing_by simp [Walker.next_eq_some _hnext]

/-- How far the scan can still go, if the tree stays as it is. -/
def left (t : Tree) (s : Scan) : Nat :=
  if s.finished then 0 else (s.walker.segments t).length + 1

theorem left_next (t : Tree) (m : ChangeMap) (s : Scan) (item : Except Error Pagemap)
    (h : (s.next t m).1 = some item) : (s.next t m).2.left t < s.left t := by
  fun_induction next t m s with
  | case1 s hf => simp at h
  | case2 s hf hv => simp [left, finish, hf]
  | case3 s hf hv hn => simp at h
  | case4 s hf hv segment walker hn offsets stats he ih =>
    refine Nat.lt_trans (ih h) ?_
    simp [left, hf, Walker.next_eq_some hn]
  | case5 s hf hv segment walker hn offsets stats he blocks =>
    simp [left, hf, Walker.next_eq_some hn]

/-- All that the scan still yields, and the scan at its end. -/
def run (t : Tree) (m : ChangeMap) (s : Scan) : List (Except Error Pagemap) × Scan :=
  match _hnext : s.next t m with
  | (none, last) => ([], last)
  | (some item, s') =>
    let (items, last) := run t m s'
    (item :: items, last)
  termination_by s.left t
  decreasing_by
    have := left_next t m s item (by rw [_hnext])
    rwa [_hnext] at this

end Scan

end ChangeTracking
