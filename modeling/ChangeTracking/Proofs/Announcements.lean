import ChangeTracking.Proofs.Engines

/-!
# What is announced to observers

An engine goes through occurrences: events, of which all observers are told, and what others do around
the trackers.  Whatever being told keeps, and others keep, holds whenever an event is delivered
(`Engine.deliveries_invariant`) and in the end (`Engine.run_invariant`).  The deliveries are those of
each event to each registration, in order (`Engine.map_deliveries`), and so are the records
(`Engine.records_run`).  If the live maps are valid, every delivery comes to an end
(`Engine.returns_deliveries`).
-/

namespace ChangeTracking

open MapFile (Writable)

namespace Tracking

variable {s : Tracking}

/-- The tracker after an event was carried out on it directly. -/
def carryOut (s : Tracking) : Event → Tracking
  | .written b l | .extended b l => s.step (.mark b l)
  | .copied p => (s.copiedRoot? p).elim s fun root => s.step (.markDirectory root [])
  | .checkpoint => s.step .checkpoint

lemma carryOut_eq (s : Tracking) (event : Event) : s.carryOut event = s.handle event := by
  cases event with
  | written | extended | checkpoint => rfl
  | copied p =>
    simp only [carryOut, handle, copied, copiedRoot?]
    cases s.copiedPath? p with
    | none => rfl
    | some below =>
      cases hdatabase : Layout.databaseAt? below s.tracker.config.versionDirectory with
      | none => simp [hdatabase]
      | some found =>
        obtain ⟨tablespace, database⟩ := found
        simp only [hdatabase, Option.bind_eq_bind, Option.bind_some]
        split
        · next hexempt => simp [markDirectory, hexempt]
        · rfl

/-- A tracker saves its map at the given place, if it comes to that. -/
def SavesAt (s : Tracking) (place : Place) : Prop :=
  ∃ m, s.liveMap? = some m ∧ Writable s.host.tree s.tracker.config.mapLocation m place

/-- Carrying out an event comes to an end. -/
def Returns (s : Tracking) (event : Event) : Prop :=
  ∀ p root, event = .copied p → s.copiedRoot? p = some root →
    (s.markDirectory root []).1 ≠ .endless

lemma LiveValid.returns (h : s.LiveValid) (event : Event) : s.Returns event := by
  rintro p root rfl hroot hendless
  unfold markDirectory at hendless
  split at hendless
  · cases hendless
  · obtain ⟨s', hagain⟩ := markPasses_nil_endless.mp hendless
    obtain ⟨live, hlive, hinvalid, -⟩ := again?_eq_some.mp hagain
    rw [(valid_markPass (by simp) root live live).1, h live hlive] at hinvalid
    cases hinvalid

end Tracking

/-! ## Occurrences -/

/-- What happens to an engine between two moments. -/
inductive Occurrence
  /-- An event, of which all observers are told. -/
  | event (event : Event)
  /-- Something that others do around the trackers. -/
  | outside (change : Outside)

/-- The event that occurred, if one did. -/
def Occurrence.event? : Occurrence → Option Event
  | .event e => some e
  | .outside _ => none

/-- The tracker after something occurred to it alone: events are carried out on it directly. -/
def Tracking.meet (s : Tracking) : Occurrence → Tracking
  | .event event => s.carryOut event
  | .outside change => s.withHost (s.host.outside change)

/-- The tracker after some occurrences, alone. -/
def Tracking.alone (s : Tracking) (occurrences : List Occurrence) : Tracking :=
  occurrences.foldl Tracking.meet s

/-- What occurs does not come to the tree. -/
def Occurrence.LeavesTree : Occurrence → Prop
  | .event e => e ≠ .checkpoint
  | .outside change => ∃ position, change = .advance position

namespace Tracking

variable {occurrences : List Occurrence}

@[simp] lemma tracker_alone (s : Tracking) (occurrences : List Occurrence) :
    (s.alone occurrences).tracker = s.tracker := by
  induction occurrences generalizing s with
  | nil => rfl
  | cons occurrence rest ih =>
    refine (ih (s.meet occurrence)).trans ?_
    cases occurrence with
    | event event => rw [meet, carryOut_eq, tracker_handle]
    | outside change => rfl

lemma tree_alone (h : ∀ occurrence ∈ occurrences, occurrence.LeavesTree) (s : Tracking) :
    (s.alone occurrences).host.tree = s.host.tree := by
  induction occurrences generalizing s with
  | nil => rfl
  | cons occurrence rest ih =>
    obtain ⟨hfirst, hrest⟩ := List.forall_mem_cons.mp h
    refine (ih hrest (s.meet occurrence)).trans ?_
    cases occurrence with
    | event event => rw [meet, carryOut_eq, s.tree_handle_of_ne hfirst]
    | outside change =>
      obtain ⟨position, rfl⟩ := hfirst
      rfl

end Tracking

/-- An event on its way to an observer. -/
structure Delivery where
  before : Engine
  observer : Observer
  event : Event

/-- The place at which a delivery makes a tracker save its map is the tracker's own. -/
def Delivery.Owned (owner : Place → Option Nat) (d : Delivery) : Prop :=
  ∀ id s place, d.observer = .tracker id → d.event = .checkpoint →
    d.before.tracking? id = some s → s.SavesAt place → owner place = some id

/-- The observer is done with the event at some time. -/
def Delivery.Returns (d : Delivery) : Prop :=
  ∀ id s, d.observer = .tracker id → d.before.tracking? id = some s → s.Returns d.event

namespace Engine

variable {e : Engine} {observers : List Observer} {occurrences : List Occurrence} {event : Event}
  {o : Observer} {id : Nat}

/-- The engine after something occurred. -/
def meet (observers : List Observer) (e : Engine) : Occurrence → Engine
  | .event event => e.announce observers event
  | .outside change => { e with host := e.host.outside change }

/-- The engine after some occurrences. -/
def run (e : Engine) (observers : List Observer) (occurrences : List Occurrence) : Engine :=
  occurrences.foldl (meet observers) e

/-- The deliveries of an event. -/
def deliveriesOf (event : Event) : Engine → List Observer → List Delivery
  | _, [] => []
  | e, o :: rest => ⟨e, o, event⟩ :: deliveriesOf event (e.tell event o) rest

/-- The deliveries of all events that occur. -/
def deliveries (observers : List Observer) : Engine → List Occurrence → List Delivery
  | _, [] => []
  | e, .event event :: rest =>
    deliveriesOf event e observers ++ deliveries observers (e.announce observers event) rest
  | e, .outside change :: rest =>
    deliveries observers { e with host := e.host.outside change } rest

lemma announce_cons (e : Engine) (o : Observer) (rest : List Observer) (event : Event) :
    e.announce (o :: rest) event = (e.tell event o).announce rest event := rfl

/-! ### Order -/

lemma map_deliveriesOf (event : Event) (e : Engine) (observers : List Observer) :
    (deliveriesOf event e observers).map (fun d => (d.observer, d.event))
      = observers.map (·, event) := by
  induction observers generalizing e with
  | nil => rfl
  | cons o rest ih => rw [deliveriesOf, List.map_cons, ih, List.map_cons]

/-- Every event is delivered once to each registration, in order. -/
lemma map_deliveries (observers : List Observer) (e : Engine) (occurrences : List Occurrence) :
    (deliveries observers e occurrences).map (fun d => (d.observer, d.event))
      = (occurrences.filterMap (·.event?)).flatMap fun event => observers.map (·, event) := by
  induction occurrences generalizing e with
  | nil => rfl
  | cons occurrence rest ih =>
    cases occurrence with
    | event event =>
      rw [deliveries, List.map_append, map_deliveriesOf, ih,
        List.filterMap_cons_some (by rfl), List.flatMap_cons]
    | outside change => rw [deliveries, ih, List.filterMap_cons_none (by rfl)]

lemma records_tell (e : Engine) (event : Event) (o : Observer) (id : Nat) :
    (e.tell event o).records[id]?
      = e.records[id]?.map (· ++ List.replicate ([o].count (.recorder id)) event) := by
  cases o with
  | recorder other =>
    rw [tell, Array.getElem?_modify]
    by_cases h : other = id
    · subst h
      simp
    · simp [h]
  | tracker other =>
    have hsame : (e.tell event (.tracker other)).records = e.records := by
      cases hother : e.tracking? other with
      | none => rw [tell_tracker_of_none hother]
      | some s => rw [tell_tracker hother]
    simp [hsame]

lemma records_announce (e : Engine) (observers : List Observer) (event : Event) (id : Nat) :
    (e.announce observers event).records[id]?
      = e.records[id]?.map (· ++ List.replicate (observers.count (.recorder id)) event) := by
  induction observers generalizing e with
  | nil => simp [announce]
  | cons o rest ih =>
    rw [announce_cons, ih, records_tell, Option.map_map]
    congr 1
    funext log
    rw [Function.comp_apply, List.append_assoc, List.replicate_append_replicate,
      ← List.count_append, List.singleton_append]

/-- A recorder writes down every event as often as it is registered. -/
lemma records_run (e : Engine) (observers : List Observer) (occurrences : List Occurrence)
    (id : Nat) :
    (e.run observers occurrences).records[id]?
      = e.records[id]?.map (· ++ (occurrences.filterMap (·.event?)).flatMap
          (List.replicate (observers.count (.recorder id)))) := by
  induction occurrences generalizing e with
  | nil => simp [run]
  | cons occurrence rest ih =>
    rw [run, List.foldl_cons, ← run, ih]
    cases occurrence with
    | event event =>
      rw [meet, records_announce, Option.map_map, List.filterMap_cons_some (by rfl),
        List.flatMap_cons]
      congr 1
      funext log
      rw [Function.comp_apply, List.append_assoc]
    | outside change => rw [meet, List.filterMap_cons_none (by rfl)]

/-! ### What all deliveries find -/

section Invariants

variable {P : Engine → Prop} (htell : ∀ e event o, P e → P (e.tell event o))

include htell

lemma announce_invariant (h : P e) (observers : List Observer) (event : Event) :
    P (e.announce observers event) := by
  induction observers generalizing e with
  | nil => exact h
  | cons o rest ih => exact ih (htell e event o h)

lemma deliveriesOf_invariant (h : P e) (observers : List Observer) (event : Event) :
    ∀ d ∈ deliveriesOf event e observers, P d.before := by
  induction observers generalizing e with
  | nil => simp [deliveriesOf]
  | cons o rest ih =>
    rw [deliveriesOf]
    exact List.forall_mem_cons.mpr ⟨h, ih (htell e event o h)⟩

variable (houtside : ∀ e change, P e → P { e with host := e.host.outside change })

include houtside

/-- What everybody who is told keeps, and what others keep, is found by all deliveries. -/
lemma deliveries_invariant (h : P e) (observers : List Observer) (occurrences : List Occurrence) :
    ∀ d ∈ deliveries observers e occurrences, P d.before := by
  induction occurrences generalizing e with
  | nil => simp [deliveries]
  | cons occurrence rest ih =>
    cases occurrence with
    | event event =>
      rw [deliveries]
      exact List.forall_mem_append.mpr ⟨deliveriesOf_invariant htell h observers event,
        ih (announce_invariant htell h observers event)⟩
    | outside change => exact ih (houtside e change h)

lemma run_invariant (h : P e) (observers : List Observer) (occurrences : List Occurrence) :
    P (e.run observers occurrences) := by
  induction occurrences generalizing e with
  | nil => exact h
  | cons occurrence rest ih =>
    cases occurrence with
    | event event => exact ih (announce_invariant htell h observers event)
    | outside change => exact ih (houtside e change h)

end Invariants

lemma tree_announce_of_ne (h : event ≠ .checkpoint) (e : Engine) (observers : List Observer) :
    (e.announce observers event).host.tree = e.host.tree := by
  induction observers generalizing e with
  | nil => rfl
  | cons o rest ih => rw [announce_cons, ih, tree_tell_of_ne h]

lemma tree_run (h : ∀ occurrence ∈ occurrences, occurrence.LeavesTree) (e : Engine)
    (observers : List Observer) : (e.run observers occurrences).host.tree = e.host.tree := by
  induction occurrences generalizing e with
  | nil => rfl
  | cons occurrence rest ih =>
    obtain ⟨hfirst, hrest⟩ := List.forall_mem_cons.mp h
    refine (ih hrest (meet observers e occurrence)).trans ?_
    cases occurrence with
    | event event => exact tree_announce_of_ne hfirst e observers
    | outside change =>
      obtain ⟨position, rfl⟩ := hfirst
      rfl

/-- A run leaves the trackers in their modes. -/
lemma trackers_run (e : Engine) (observers : List Observer) (occurrences : List Occurrence) :
    (e.run observers occurrences).trackers = e.trackers :=
  run_invariant (P := (·.trackers = e.trackers))
    (fun e' event o h => (e'.trackers_tell event o).trans h) (fun _ _ h => h) rfl observers
    occurrences

section Deliveries

variable {d : Delivery} (hd : d ∈ deliveries observers e occurrences)

include hd

lemma observer_mem_of_mem_deliveries : d.observer ∈ observers := by
  have hmem := List.mem_map_of_mem hd (f := fun d => (d.observer, d.event))
  rw [map_deliveries, List.mem_flatMap] at hmem
  obtain ⟨event, -, hmem⟩ := hmem
  obtain ⟨o, ho, heq⟩ := List.mem_map.mp hmem
  have hsame : o = d.observer := congrArg Prod.fst heq
  exact hsame ▸ ho

/-- A delivery finds the trackers in the modes that they were in at first. -/
lemma trackers_before : d.before.trackers = e.trackers :=
  deliveries_invariant (P := (·.trackers = e.trackers))
    (fun e' event o h => (e'.trackers_tell event o).trans h) (fun _ _ h => h) rfl observers
    occurrences d hd

lemma valid_before (k : MapId) : (d.before.host.map k).valid = (e.host.map k).valid :=
  deliveries_invariant (P := fun e' => (e'.host.map k).valid = (e.host.map k).valid)
    (fun e' event o h => (e'.valid_tell event o k).trans h)
    (fun e' change h => by simpa [Host.map] using h) rfl observers occurrences d hd

end Deliveries

/-- With valid live maps, all deliveries come to an end. -/
lemma returns_deliveries
    (hvalid : ∀ id s, .tracker id ∈ observers → e.tracking? id = some s → s.LiveValid) :
    ∀ d ∈ deliveries observers e occurrences, d.Returns := by
  intro d hd id s hobserver hid
  rw [tracking?_of_trackers_eq (trackers_before hd), Option.map_eq_some_iff] at hid
  obtain ⟨s, hs, rfl⟩ := hid
  refine Tracking.LiveValid.returns (fun live hlive => ?_) d.event
  rw [Tracking.host_withHost, valid_before hd, ← (tracking?_eq_some.mp hs).2]
  exact hvalid id s (hobserver ▸ observer_mem_of_mem_deliveries hd) hs live hlive

/-- Trackers save at places of their own if their paths lead to such places in every tree. -/
lemma owned_deliveries {owner : Place → Option Nat}
    (h : ∀ id s t m place, e.tracking? id = some s →
      Writable t s.tracker.config.mapLocation m place → owner place = some id) :
    ∀ d ∈ deliveries observers e occurrences, d.Owned owner := by
  rintro d hd id s place - - hid ⟨m, -, hplace⟩
  rw [tracking?_of_trackers_eq (trackers_before hd), Option.map_eq_some_iff] at hid
  obtain ⟨s, hs, rfl⟩ := hid
  exact h id s _ m place hs hplace

end Engine

end ChangeTracking
