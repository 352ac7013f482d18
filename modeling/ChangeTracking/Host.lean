import ChangeTracking.MapFile

/-!
# What trackers work on

A host is what all trackers of a process have around them: the directory tree, the position up to
which the log is written, and the change maps in memory.  A map may be held by several parties at
once (a tracker, scans, whoever asked for it), who all see what is done to it, so maps are kept in the
host and handed out by number.
-/

namespace ChangeTracking

/-- The number of a map that a host keeps. -/
abbrev MapId := Nat

/-- A directory tree, a position in the log, and change maps. -/
structure Host where
  tree : Tree
  /-- The position up to which the log is written. -/
  position : Lsn
  maps : Array ChangeMap

namespace Host

/-- The map of a given number. -/
def map (h : Host) (id : MapId) : ChangeMap := h.maps.getD id default

/-- Takes in a map, under the next free number. -/
def addMap (h : Host) (m : ChangeMap) : MapId × Host :=
  (h.maps.size, { h with maps := h.maps.push m })

/-- Changes the map of a given number. -/
def updateMap (h : Host) (id : MapId) (f : ChangeMap → ChangeMap) : Host :=
  { h with maps := h.maps.modify id f }

/-- Keeps a map on disk if that can be done, and leaves the tree alone otherwise. -/
def trySave (h : Host) (p : Path) (m : ChangeMap) : Host :=
  match MapFile.save h.tree p m with
  | .ok tree => { h with tree := tree }
  | .error _ => h

/-- Deletes a map on disk if that can be done, and leaves the tree alone otherwise. -/
def tryDelete (h : Host) (p : Path) : Host :=
  match MapFile.delete h.tree p with
  | .ok tree => { h with tree := tree }
  | .error _ => h

end Host

end ChangeTracking
