import ChangeTracking.Tracker

/-!
# Copied directories

When a directory was copied into place, its blocks are marked on the live map, at the log's position
or at the start of the map's epoch, whichever is later: a mark before the epoch would not count.

Marking takes its time, and the tracker may be given a new map or be stopped meanwhile.  Marks on
a map that is no longer valid are worth nothing, so after each pass the map is looked at and, if it
was replaced, a further pass marks the new one.  What happens during which pass is an argument here
(`Interruption`).  A map that is invalid although nothing replaced it would keep this going for ever;
then the outcome is `endless`.
-/

namespace ChangeTracking

/-- What may happen to a tracker while a directory is being marked. -/
inductive Interruption
  | replaceMap (bytes : UInt64)
  | stop
  deriving DecidableEq

/-- What came of marking a directory. -/
inductive CopyOutcome
  /-- Nothing was marked: the tracker is idle, or the directory is exempt. -/
  | skipped
  | marked (stats : BulkStats)
  /-- The live map is invalid and is not going to be replaced. -/
  | endless
  deriving DecidableEq

namespace Tracking

/-- Lets happen what may happen. -/
def interrupt (s : Tracking) : Interruption → Tracking
  | .replaceMap bytes => (s.replaceMap bytes).2
  | .stop => s.stop

/-- One pass: marks the segment files below `root` on the map of number `live`, after the given
events. -/
def markPass (s : Tracking) (live : MapId) (root : Walk.Root) (events : List Interruption) :
    BulkStats × Tracking :=
  let s := events.foldl interrupt s
  let l := s.host.position.latest (s.host.map live).epoch
  let segments := root.listing s.host.tree s.tracker.config.versionDirectory
  (.ofSegments segments, s.withHost (s.host.updateMap live (·.markSegments l segments)))

/-- Passes until the map that was marked is still valid afterwards.  `events` says what happens
during each pass, as far as anything does. -/
def markPasses (s : Tracking) (root : Walk.Root) :
    (events : List (List Interruption)) → CopyOutcome × Tracking
  | [] =>
    match s.live? with
    | none => (.skipped, s)
    | some live =>
      let (stats, s) := s.markPass live root []
      if (s.host.map live).valid then (.marked stats, s) else (.endless, s)
  | now :: later =>
    match s.live? with
    | none => (.skipped, s)
    | some live =>
      let (stats, s) := s.markPass live root now
      if (s.host.map live).valid then (.marked stats, s) else s.markPasses root later

/-- Marks all blocks of the segment files below a root, unless it is exempt. -/
def markDirectory (s : Tracking) (root : Walk.Root) (events : List (List Interruption)) :
    CopyOutcome × Tracking :=
  if s.tracker.isExempt root.path then (.skipped, s) else s.markPasses root events

/-- The path below the data directory that a copy's path means, if it means one. -/
def copiedPath? (s : Tracking) (p : Path) : Option Path :=
  if p.isAbsolute then p.relativeTo? s.tracker.config.dataDirectory else some p

/-- Takes note that a directory was copied to the given path, absolute or below the data directory.
A path outside the data directory, or one that is no database's, is passed over. -/
def copied (s : Tracking) (p : Path) : Tracking :=
  let config := s.tracker.config
  match s.copiedPath? p with
  | none => s
  | some below =>
    match Layout.databaseAt? below config.versionDirectory with
    | none => s
    | some (tablespace, database) =>
      (s.markDirectory ⟨config.dataDirectory.join below.text, ⟨tablespace, database⟩⟩ []).2

end Tracking

end ChangeTracking
