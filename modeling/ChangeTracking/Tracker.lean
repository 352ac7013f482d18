import ChangeTracking.BulkMark
import ChangeTracking.Config
import ChangeTracking.Host
import ChangeTracking.Scan

/-!
# Trackers

A tracker records the changes of one data directory in a map, keeps the map on disk at checkpoints,
and answers what changed since a baseline.  A tracker is *active*, with a live map, or *idle*
for a reason; an idle tracker does nothing until it is given a new map.

A tracker's state is its `Tracker` and what happens around it is in its `Host`; the two together are
a `Tracking`, on which all operations are functions.

Each new map starts a new epoch.  An epoch starts at the log's current position, but always after
the epoch before it, and `covers` tells whether the map has been watching since a baseline: with
that, nobody takes a younger map for one that saw all changes.
-/

namespace ChangeTracking

/-- Why a tracker does not track. -/
inductive IdleReason
  /-- The settings do not ask for tracking. -/
  | turnedOff
  /-- The map on disk could not be read. -/
  | unreadable (cause : Error)
  /-- Tracking came to its end. -/
  | stopped
  deriving DecidableEq

/-- Whether a tracker tracks. -/
inductive Mode
  /-- Changes are recorded in the map of the given number. -/
  | active (live : MapId)
  | idle (reason : IdleReason)
  deriving DecidableEq

/-- A tracker: its settings, which directories are not to be marked when they are copied, and whether
it tracks. -/
structure Tracker where
  config : Config
  /-- Whether the directory of a path is exempt from being marked, by that path as it is written. -/
  isExempt : Path → Bool
  mode : Mode

/-- No directory is exempt. -/
def exemptNone (_ : Path) : Bool := false

/-- A tracker and what it works on. -/
structure Tracking where
  host : Host
  tracker : Tracker

/-- The version of the protocol that backup tools are told. -/
def protocol : String := "2.4"

/-- The start of an epoch: the log's position, but after the start of the epoch before. -/
def epochStart (position : Lsn) (previous : Option ChangeMap) : Lsn :=
  match previous with
  | some old => position.latest old.epoch.next
  | none => position

namespace Tracking

/-! ## The live map -/

/-- The number of the live map. -/
def live? (s : Tracking) : Option MapId :=
  match s.tracker.mode with
  | .active live => some live
  | .idle _ => none

/-- The live map. -/
def liveMap? (s : Tracking) : Option ChangeMap := s.live?.map s.host.map

/-- The same tracker in another mode. -/
def withMode (s : Tracking) (mode : Mode) : Tracking :=
  { s with tracker := { s.tracker with mode := mode } }

/-- The same tracker with another host. -/
def withHost (s : Tracking) (host : Host) : Tracking := { s with host := host }

/-- The same tracker with `m` as its live map. -/
def withMap (s : Tracking) (m : ChangeMap) : Tracking :=
  let (id, host) := s.host.addMap m
  (s.withHost host).withMode (.active id)

/-- The same tracker with a live map that is new: it is also kept on disk if that can be done. -/
def withNewMap (s : Tracking) (m : ChangeMap) : Tracking :=
  (s.withHost (s.host.trySave s.tracker.config.mapLocation m)).withMap m

/-! ## Starting -/

/-- A tracker that does not track. -/
def idle (config : Config) (isExempt : Path → Bool) (host : Host) (reason : IdleReason) : Tracking :=
  ⟨host, ⟨config, isExempt, .idle reason⟩⟩

/-- Starts a tracker.  Without tracking, a map left on disk is deleted.  A map of the right size is
taken up again; one of another size, or none, makes way for a new one; and what cannot be read keeps
the tracker idle, so that no epoch is lost without anybody noticing. -/
def start (config : Config) (isExempt : Path → Bool) (host : Host) : Except Error Tracking := do
  config.check
  if config.tracks then
    let count ← slotsFor config.mapSize
    match MapFile.load host.tree config.mapLocation with
    | .error cause => return idle config isExempt host (.unreadable cause)
    | .ok saved =>
      let fresh := idle config isExempt host .turnedOff
      match saved.filter (·.slotCount = count) with
      | some m => return fresh.withMap m
      | none =>
        return fresh.withNewMap
          (← ChangeMap.create config.mapSize (epochStart host.position saved))
  else return idle config isExempt (host.tryDelete config.mapLocation) .turnedOff

/-! ## Recording changes -/

/-- Records that a block changed. -/
def mark (s : Tracking) (b : Block) (l : Lsn) : Tracking :=
  match s.live? with
  | some live => s.withHost (s.host.updateMap live (·.mark b l))
  | none => s

/-- Replaces the live map by an empty one of the given size, and starts a new epoch with it.  A size
that no map can have changes nothing. -/
def replaceMap (s : Tracking) (bytes : UInt64) : Except Error Lsn × Tracking :=
  match ChangeMap.create bytes (epochStart s.host.position s.liveMap?) with
  | .error e => (.error e, s)
  | .ok m =>
    let host :=
      match s.live? with
      | some old => s.host.updateMap old .retire
      | none => s.host
    (.ok m.epoch, (s.withHost host).withNewMap m)

/-! ## Checkpoints and the end -/

/-- Keeps the live map on disk.  An idle tracker has nothing to keep. -/
def checkpoint (s : Tracking) : Except Error Unit × Tracking :=
  match s.liveMap? with
  | none => (.ok (), s)
  | some m =>
    match MapFile.save s.host.tree s.tracker.config.mapLocation m with
    | .ok tree => (.ok (), s.withHost { s.host with tree := tree })
    | .error e => (.error (.file e), s)

/-- Keeps the live map on disk if that can be done, and stops tracking. -/
def stop (s : Tracking) : Tracking :=
  let s := s.checkpoint.2
  let host :=
    match s.live? with
    | some live => s.host.updateMap live .retire
    | none => s.host
  (s.withHost host).withMode (.idle .stopped)

/-! ## Answers -/

/-- The start of the live map's epoch. -/
def epoch? (s : Tracking) : Option Lsn := s.liveMap?.map (·.epoch)

/-- Whether the live map has been watching since the baseline. -/
def covers (s : Tracking) (baseline : Lsn) : Bool :=
  match s.liveMap? with
  | some m => decide (m.epoch ≤ baseline)
  | none => false

end Tracking

/-- A scan of a map that a host keeps. -/
structure OpenScan where
  map : MapId
  scan : Scan

namespace OpenScan

/-- The scan's next answer, as the host is now. -/
def next (o : OpenScan) (h : Host) : Option (Except Error Pagemap) × OpenScan :=
  let (item, scan) := o.scan.next h.tree (h.map o.map)
  (item, { o with scan := scan })

/-- All of the scan's answers, if nothing happens in between. -/
def run (o : OpenScan) (h : Host) : List (Except Error Pagemap) × OpenScan :=
  let (items, scan) := o.scan.run h.tree (h.map o.map)
  (items, { o with scan := scan })

end OpenScan

/-- Opens a scan of the data directory for what changed since the baseline. -/
def Tracking.openScan (s : Tracking) (baseline : Lsn) : Except Error OpenScan :=
  match s.live? with
  | some live =>
    let config := s.tracker.config
    .ok ⟨live, .ofWalker baseline
      (.ofDataDirectory config.versionDirectory config.dataDirectory)⟩
  | none => .error .disabled

end ChangeTracking
