import ChangeTracking.Tracker.Copy

/-!
# Events and observers

The storage engine tells its observers what happens to blocks and directories.  Every observer gets
every event, in the order in which observers were registered; one that was registered twice gets
each event twice.  Trackers act on events, and recorders write them down.
-/

namespace ChangeTracking

/-- What the storage engine tells. -/
inductive Event
  | written (block : Block) (lsn : Lsn)
  | extended (block : Block) (lsn : Lsn)
  /-- A directory was copied into place. -/
  | copied (path : Path)
  /-- All that was written is on disk. -/
  | checkpoint
  deriving DecidableEq

/-- What a tracker does about an event.  It never fails: a checkpoint that cannot be written leaves
the map in memory as it is. -/
def Tracking.handle (s : Tracking) : Event → Tracking
  | .written b l | .extended b l => s.mark b l
  | .copied p => s.copied p
  | .checkpoint => s.checkpoint.2

/-- Who is told. -/
inductive Observer
  /-- The tracker of the given number. -/
  | tracker (id : Nat)
  /-- The recorder of the given number. -/
  | recorder (id : Nat)
  deriving DecidableEq

/-- A host with the trackers and recorders on it. -/
structure Engine where
  host : Host
  trackers : Array Tracker
  /-- What each recorder has written down, in order. -/
  records : Array (List Event)

namespace Engine

/-- Lets the tracker of the given number act, and gives back what it answers. -/
def act (e : Engine) (id : Nat) (f : Tracking → α × Tracking) (absent : α) : α × Engine :=
  match e.trackers[id]? with
  | none => (absent, e)
  | some tracker =>
    let (answer, after) := f ⟨e.host, tracker⟩
    (answer, { e with host := after.host, trackers := e.trackers.setIfInBounds id after.tracker })

/-- Tells one observer. -/
def tell (e : Engine) (event : Event) : Observer → Engine
  | .tracker id => (e.act id (fun s => ((), s.handle event)) ()).2
  | .recorder id => { e with records := e.records.modify id (· ++ [event]) }

/-- Tells all observers, in their order. -/
def announce (e : Engine) (observers : List Observer) (event : Event) : Engine :=
  observers.foldl (fun e o => e.tell event o) e

end Engine

end ChangeTracking
