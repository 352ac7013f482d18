import ChangeTracking.Proofs.Epochs
import ChangeTracking.Proofs.Repetition

/-!
# Trackers on one host

The trackers of an engine share its host, so each of them may find changed what another one has done:
the tree, and the maps.  But no two trackers have the same live map (`Engine.Reached.sound`).  A map
becomes live when it is taken in, and then by a number that no map had before
(`Tracking.liveSince_step`).

To tell an observer of an event leaves all trackers in their modes, and all that it changes on the
host is what the tracker that was told changes (`Engine.tell_tracker`).
-/

namespace ChangeTracking

namespace Tracking

variable {s s' : Tracking} {live : MapId}

/-- What is live after an action was live before or was taken in since. -/
lemma liveSince_step (s : Tracking) (a : Action) (hlive : (s.step a).live? = some live) :
    s.LiveSince (s.step a) live := by
  have hinterrupt : ∀ (s' : Tracking) (e : Interruption),
      (s.LeadsTo s' ∧ ∀ live, s'.live? = some live → s.LiveSince s' live) →
        s.LeadsTo (s'.interrupt e) ∧
          ∀ live, (s'.interrupt e).live? = some live → s.LiveSince (s'.interrupt e) live := by
    rintro s' e ⟨hleads, hsince⟩
    refine ⟨hleads.trans (s'.leadsTo_interrupt e), fun live hlive => ?_⟩
    cases e with
    | stop =>
      rw [interrupt, stop_eq, live?_withMode_idle] at hlive
      cases hlive
    | replaceMap bytes =>
      rcases s'.replaceMap_cases bytes with ⟨-, heq⟩ | ⟨-, m, -, heq⟩
      · rw [interrupt, heq] at hlive ⊢
        exact hsince live hlive
      · rw [interrupt, heq] at hlive ⊢
        rw [live?_withNewMap, size_retireLive, Option.some.injEq] at hlive
        exact hlive ▸ .withNewMap_self hleads m
  have hmark : ∀ (s' : Tracking) (taken : MapId) (marks : List (Block × Lsn)),
      (s.LeadsTo s' ∧ ∀ live, s'.live? = some live → s.LiveSince s' live) →
        s.LeadsTo (s'.withHost (s'.host.updateMap taken (·.markAll marks))) ∧
          ∀ live, (s'.withHost (s'.host.updateMap taken (·.markAll marks))).live? = some live →
            s.LiveSince (s'.withHost (s'.host.updateMap taken (·.markAll marks))) live := by
    rintro s' taken marks ⟨hleads, hsince⟩
    have hmarks := s'.leadsTo_markAll taken marks
    exact ⟨hleads.trans hmarks, fun live hlive => (hsince live hlive).of_leadsTo hmarks⟩
  have hself : s.LeadsTo s ∧ ∀ live, s.live? = some live → s.LiveSince s live :=
    ⟨.refl s, fun _ hlive => .inl hlive⟩
  cases a with
  | mark b l =>
    left
    rw [← hlive]
    cases hbefore : s.live? with
    | none => simp only [step, mark_eq_self hbefore, hbefore]
    | some before => simp only [step, mark_eq hbefore, live?_withHost, hbefore]
  | markDirectory root events =>
    exact (markDirectory_invariant
      (P := fun s' => s.LeadsTo s' ∧ ∀ live, s'.live? = some live → s.LiveSince s' live) hinterrupt
      hmark hself root events).2 live hlive
  | replaceMap bytes => exact (hinterrupt s (.replaceMap bytes) hself).2 live hlive
  | stop => exact (hinterrupt s .stop hself).2 live hlive
  | checkpoint => exact .inl (s.live?_checkpoint.symm.trans hlive)
  | scan | advance | changeTree => exact .inl hlive

section Started

variable {config : Config} {isExempt : Path → Bool} {host : Host}
  (hstart : start config isExempt host = .ok s)

include hstart

lemma size_le_of_start : host.maps.size ≤ s.host.maps.size := by
  cases (started_of_start hstart).2 with
  | turnedOff => exact (congrArg Array.size (Host.maps_tryDelete _ _)).ge
  | unreadable => exact le_rfl
  | attached | fresh => simp [idle]

/-- What is live when a tracker starts was taken in then. -/
lemma size_le_live_of_start (hlive : s.live? = some live) : host.maps.size ≤ live := by
  cases (started_of_start hstart).2 with
  | turnedOff | unreadable => simp at hlive
  | attached | fresh =>
    simp only [live?_withMap, live?_withNewMap, Option.some.injEq] at hlive
    exact hlive.le

end Started

end Tracking

/-! ## Around the trackers -/

/-- What others may do to a host. -/
inductive Outside
  /-- The log is written up to a position. -/
  | advance (position : Lsn)
  /-- An entry is made in a directory, in the place of what was there. -/
  | put (directory : Place) (name : Name) (node : Node)
  /-- An entry is removed, and all that is below it. -/
  | remove (directory : Place) (name : Name)
  /-- The current directory becomes another one. -/
  | enter (there : Standpoint)
  /-- What the system refuses becomes something else. -/
  | refuse (refusal? : Modification → Place → Option FileError)

/-- The host after what others did to it. -/
def Host.outside (h : Host) : Outside → Host
  | .advance position => { h with position := position }
  | .put directory name node => { h with tree := h.tree.put (name :: directory) node }
  | .remove directory name => { h with tree := h.tree.remove (name :: directory) }
  | .enter there => { h with tree := { h.tree with working := there } }
  | .refuse refusal? => { h with tree := { h.tree with refusal? := refusal? } }

@[simp] lemma Host.maps_outside (h : Host) (change : Outside) : (h.outside change).maps = h.maps := by
  cases change <;> rfl

namespace Engine

variable {e e' : Engine} {id : Nat} {s s' : Tracking}

/-- The tracker of the given number, with the host that it works on. -/
def tracking? (e : Engine) (id : Nat) : Option Tracking := e.trackers[id]?.map (⟨e.host, ·⟩)

lemma tracking?_eq_some :
    e.tracking? id = some s ↔ e.trackers[id]? = some s.tracker ∧ s.host = e.host := by
  rw [tracking?, Option.map_eq_some_iff]
  constructor
  · rintro ⟨tracker, htracker, rfl⟩
    exact ⟨htracker, rfl⟩
  · rintro ⟨htracker, hhost⟩
    exact ⟨s.tracker, htracker, hhost ▸ rfl⟩

lemma tracking?_of_trackers_eq (h : e'.trackers = e.trackers) (id : Nat) :
    e'.tracking? id = (e.tracking? id).map (·.withHost e'.host) := by
  rw [tracking?, tracking?, h, Option.map_map]
  rfl

/-- The number of the live map of a tracker. -/
def live? (e : Engine) (id : Nat) : Option MapId :=
  e.trackers[id]?.bind fun tracker => (Tracking.mk e.host tracker).live?

lemma live?_of_tracking? (hid : e.tracking? id = some s) : e.live? id = s.live? := by
  rw [live?, (tracking?_eq_some.mp hid).1]
  rfl

lemma live?_of_trackers_eq (h : e'.trackers = e.trackers) (id : Nat) : e'.live? id = e.live? id := by
  rw [live?, live?, h]
  rfl

/-! ## What is told -/

lemma act_eq {α : Type} (hid : e.tracking? id = some s) (f : Tracking → α × Tracking) (absent : α) :
    (e.act id f absent).2 = { e with
      host := (f s).2.host
      trackers := e.trackers.setIfInBounds id (f s).2.tracker } := by
  obtain ⟨tracker, htracker, rfl⟩ := Option.map_eq_some_iff.mp hid
  rw [act, htracker]

lemma act_eq_self {α : Type} (hid : e.tracking? id = none) (f : Tracking → α × Tracking)
    (absent : α) : (e.act id f absent).2 = e := by
  rw [act, Option.map_eq_none_iff.mp hid]

/-- A tracker that is told of an event changes nothing but the host. -/
lemma tell_tracker (hid : e.tracking? id = some s) (event : Event) :
    e.tell event (.tracker id) = { e with host := (s.handle event).host } := by
  have hsame : e.trackers.setIfInBounds id s.tracker = e.trackers := by
    obtain ⟨hlt, htracker⟩ := Array.getElem?_eq_some_iff.mp (tracking?_eq_some.mp hid).1
    rw [Array.setIfInBounds_def, dif_pos hlt, ← htracker, Array.set_getElem_self]
  rw [tell, act_eq hid]
  simp only [Tracking.tracker_handle, hsame]

lemma tell_tracker_of_none (hid : e.tracking? id = none) (event : Event) :
    e.tell event (.tracker id) = e := act_eq_self hid _ _

/-- Whoever is told, the trackers stay in their modes. -/
@[simp] lemma trackers_tell (e : Engine) (event : Event) (o : Observer) :
    (e.tell event o).trackers = e.trackers := by
  cases o with
  | recorder id => rfl
  | tracker id =>
    cases hid : e.tracking? id with
    | none => rw [tell_tracker_of_none hid]
    | some s => rw [tell_tracker hid]

/-- What holds of the host and is kept by every tracker that is told still holds. -/
lemma host_tell {P : Host → Prop} {event : Event} (h : P e.host)
    (hhandle : ∀ s : Tracking, s.host = e.host → P (s.handle event).host) (o : Observer) :
    P (e.tell event o).host := by
  cases o with
  | recorder id => exact h
  | tracker id =>
    cases hid : e.tracking? id with
    | none => rwa [tell_tracker_of_none hid]
    | some s =>
      rw [tell_tracker hid]
      exact hhandle s (tracking?_eq_some.mp hid).2

@[simp] lemma size_tell (e : Engine) (event : Event) (o : Observer) :
    (e.tell event o).host.maps.size = e.host.maps.size :=
  host_tell (P := (·.maps.size = e.host.maps.size)) rfl
    (fun s hs => (s.size_handle event).trans (hs ▸ rfl)) o

/-- No event makes a map invalid. -/
lemma valid_tell (e : Engine) (event : Event) (o : Observer) (k : MapId) :
    ((e.tell event o).host.map k).valid = (e.host.map k).valid :=
  host_tell (P := fun h => (h.map k).valid = (e.host.map k).valid) rfl
    (fun s hs => (s.valid_handle event k).trans (hs ▸ rfl)) o

/-- Nothing but a checkpoint changes the tree. -/
lemma tree_tell_of_ne {event : Event} (h : event ≠ .checkpoint) (e : Engine) (o : Observer) :
    (e.tell event o).host.tree = e.host.tree :=
  host_tell (P := (·.tree = e.host.tree)) rfl
    (fun s hs => (s.tree_handle_of_ne h).trans (hs ▸ rfl)) o

/-- At a checkpoint, a tracker saves its live map. -/
lemma tree_tell_checkpoint {tracker : Tracker} {live : MapId}
    (htracker : e.trackers[id]? = some tracker)
    (hlive : (Tracking.mk e.host tracker).live? = some live) :
    (e.tell .checkpoint (.tracker id)).host.tree
      = MapFile.saved e.host.tree tracker.config.mapLocation (e.host.map live) := by
  have hid : e.tracking? id = some ⟨e.host, tracker⟩ := tracking?_eq_some.mpr ⟨htracker, rfl⟩
  rw [tell_tracker hid, Tracking.tree_handle hlive, Tracking.eventTree]

/-! ## What may have become of an engine -/

/-- What an engine may be, from when it has neither trackers nor recorders. -/
inductive Reached : Engine → Prop
  | empty (tree : Tree) (position : Lsn) : Reached ⟨⟨tree, position, #[]⟩, #[], #[]⟩
  /-- Another tracker is started. -/
  | start {e : Engine} (h : Reached e) {config : Config} {isExempt : Path → Bool} {s : Tracking}
      (hstart : Tracking.start config isExempt e.host = .ok s) :
      Reached { e with host := s.host, trackers := e.trackers.push s.tracker }
  /-- Another recorder begins. -/
  | record {e : Engine} (h : Reached e) : Reached { e with records := e.records.push [] }
  /-- Something is asked of a tracker. -/
  | act {e : Engine} (h : Reached e) (id : Nat) (a : Action) :
      Reached (e.act id (fun s => ((), s.step a)) ()).2
  /-- Whoever holds a map changes it. -/
  | changeMap {e : Engine} (h : Reached e) (id : MapId) (f : ChangeMap → ChangeMap) :
      Reached { e with host := e.host.updateMap id f }
  /-- An observer is told of an event. -/
  | tell {e : Engine} (h : Reached e) (event : Event) (o : Observer) : Reached (e.tell event o)
  | outside {e : Engine} (h : Reached e) (change : Outside) :
      Reached { e with host := e.host.outside change }

/-- The live maps are kept by the host, and they are apart from each other. -/
structure Sound (e : Engine) : Prop where
  kept : ∀ id live, e.live? id = some live → live < e.host.maps.size
  apart : ∀ id other live, e.live? id = some live → e.live? other = some live → id = other

namespace Sound

/-- It stays so if one tracker at most comes to another live map, which has a number that no map had
before. -/
lemma of_live? (h : e.Sound) (id : Nat) (hsize : e.host.maps.size ≤ e'.host.maps.size)
    (hothers : ∀ other ≠ id, e'.live? other = e.live? other)
    (hlive : ∀ live, e'.live? id = some live →
      e.live? id = some live ∨ e.host.maps.size ≤ live ∧ live < e'.host.maps.size) : e'.Sound := by
  have hcases : ∀ k live, e'.live? k = some live →
      e.live? k = some live ∨ k = id ∧ e.host.maps.size ≤ live ∧ live < e'.host.maps.size := by
    intro k live hk
    by_cases hne : k = id
    · subst hne
      exact (hlive live hk).imp_right fun hnew => ⟨rfl, hnew⟩
    · exact .inl (hothers k hne ▸ hk)
  constructor
  · intro k live hk
    rcases hcases k live hk with hold | ⟨-, -, hlt⟩
    · exact (h.kept k live hold).trans_le hsize
    · exact hlt
  · intro k k' live hk hk'
    rcases hcases k live hk with hold | ⟨rfl, hnew, -⟩
    · rcases hcases k' live hk' with hold' | ⟨-, hnew', -⟩
      · exact h.apart k k' live hold hold'
      · exact absurd (h.kept k live hold) (Nat.not_lt.mpr hnew')
    · rcases hcases k' live hk' with hold' | ⟨rfl, -⟩
      · exact absurd (h.kept k' live hold') (Nat.not_lt.mpr hnew)
      · rfl

lemma of_trackers_eq (h : e.Sound) (htrackers : e'.trackers = e.trackers)
    (hsize : e.host.maps.size ≤ e'.host.maps.size) : e'.Sound := by
  have hlive := live?_of_trackers_eq htrackers
  exact h.of_live? 0 hsize (fun other _ => hlive other) fun live hid => .inl (hlive 0 ▸ hid)

lemma tell (h : e.Sound) (event : Event) (o : Observer) : (e.tell event o).Sound :=
  h.of_trackers_eq (e.trackers_tell event o) (e.size_tell event o).ge

lemma outside (h : e.Sound) (change : Outside) :
    Sound { e with host := e.host.outside change } :=
  h.of_trackers_eq rfl (by simp)

lemma start (h : e.Sound) {config : Config} {isExempt : Path → Bool}
    (hstart : Tracking.start config isExempt e.host = .ok s) :
    Sound { e with host := s.host, trackers := e.trackers.push s.tracker } := by
  refine h.of_live? e.trackers.size (Tracking.size_le_of_start hstart) ?_ ?_
  · intro other hne
    simp only [live?, Array.getElem?_push, if_neg hne]
    rfl
  · intro live hlive
    simp only [live?, Array.getElem?_push, if_true] at hlive
    exact .inr ⟨Tracking.size_le_live_of_start hstart hlive,
      Tracking.coherent_of_started (Tracking.started_of_start hstart).2 live hlive⟩

lemma act (h : e.Sound) (id : Nat) (a : Action) :
    (e.act id (fun s => ((), s.step a)) ()).2.Sound := by
  cases hid : e.tracking? id with
  | none => rwa [act_eq_self hid]
  | some s =>
    obtain ⟨htracker, hhost⟩ := tracking?_eq_some.mp hid
    have hsize := (s.leadsTo_step a).host.size
    rw [hhost] at hsize
    rw [act_eq hid]
    refine h.of_live? id hsize ?_ ?_
    · intro other hne
      simp only [live?, Array.getElem?_setIfInBounds, if_neg hne.symm]
      rfl
    · intro live hlive
      obtain ⟨hlt, -⟩ := Array.getElem?_eq_some_iff.mp htracker
      simp only [live?, Array.getElem?_setIfInBounds, if_true, if_pos hlt] at hlive
      have hsince := s.liveSince_step a hlive
      rwa [Tracking.LiveSince, hhost, ← live?_of_tracking? hid] at hsince

end Sound

/-- No two trackers of an engine have the same live map. -/
theorem Reached.sound (h : e.Reached) : e.Sound := by
  induction h with
  | empty tree position =>
    exact ⟨fun id live hid => by simp [live?] at hid, fun id other live hid => by
      simp [live?] at hid⟩
  | start _ hstart ih => exact ih.start hstart
  | record _ ih => exact ih.of_trackers_eq rfl le_rfl
  | act _ id a ih => exact ih.act id a
  | changeMap _ id f ih => exact ih.of_trackers_eq rfl (by simp)
  | tell _ event o ih => exact ih.tell event o
  | outside _ change ih => exact ih.outside change

end Engine

end ChangeTracking
