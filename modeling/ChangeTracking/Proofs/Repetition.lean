import ChangeTracking.Proofs.ForeignFiles
import ChangeTracking.Proofs.Idleness
import ChangeTracking.Proofs.Passes

/-!
# Events that are told twice

All that an event does to an active tracker is to mark its live map and, at a checkpoint, to keep the
map on disk (`Tracking.handle_eq`).  To do so again changes nothing (`Tracking.handle_handle`).  A slot
holds the greatest of its marks, however often they are made.  A map that takes its epoch from the
first mark has one when the marks come again, but a directory is marked at the same position then
(`ChangeMap.latest_epoch_markAll`).  And a map that was kept is kept already, even if its file has cut
the way that its path took (`MapFile.saved_saved`).
-/

namespace ChangeTracking

namespace ChangeMap

lemma eq_of_parts {m m' : ChangeMap} (hslots : m.slots = m'.slots) (hepoch : m.epoch = m'.epoch)
    (hvalid : m.valid = m'.valid) : m = m' := by
  obtain ⟨slots, epoch, valid, _, _⟩ := m
  obtain ⟨slots', epoch', valid', _, _⟩ := m'
  obtain rfl : slots = slots' := hslots
  obtain rfl : epoch = epoch' := hepoch
  obtain rfl : valid = valid' := hvalid
  rfl

/-- Marks that are made again change nothing. -/
theorem markAll_markAll (m : ChangeMap) (marks : List (Block × Lsn)) :
    (m.markAll marks).markAll marks = m.markAll marks := by
  refine eq_of_parts (slots_ext (by simp) fun j => ?_) ?_ (by simp)
  · have htwice := m.slot_markAll (marks ++ marks) j
    rw [markAll_append] at htwice
    refine htwice.unique ?_
    simpa only [List.mem_append, or_self] using m.slot_markAll marks j
  · cases hknown : (m.markAll marks).epoch.known with
    | true => exact epoch_markAll_of_known hknown marks
    | false =>
      have hm : ¬ m.epoch.known = true := by
        intro hm
        rw [epoch_markAll_of_known hm, hm] at hknown
        cases hknown
      rw [epoch_markAll, if_neg (Bool.eq_false_iff.mp hknown), epoch_markAll, if_neg hm]

/-- Marks at a position or at the epoch, whichever is later, leave it so. -/
lemma latest_epoch_markAll (m : ChangeMap) (position : Lsn) {marks : List (Block × Lsn)}
    (hmarks : ∀ mark ∈ marks, mark.2 = position.latest m.epoch) :
    position.latest (m.markAll marks).epoch = position.latest m.epoch := by
  by_cases hknown : m.epoch.known = true
  · rw [epoch_markAll_of_known hknown]
  · have hnever := Lsn.eq_never_of_not_known hknown
    simp only [Lsn.latest_eq_max, hnever, Lsn.max_never] at hmarks ⊢
    refine max_eq_left (epoch_markAll_le ?_ fun mark hmark => (hmarks mark hmark).le)
    rw [hnever]
    exact Lsn.never_le position

end ChangeMap

lemma Host.updateMap_markAll_nil (h : Host) (id : MapId) : h.updateMap id (·.markAll []) = h := by
  have hmaps : h.maps.modify id (·.markAll []) = h.maps := by
    apply Array.ext (Array.size_modify ..)
    intro k hk hk'
    rw [Array.getElem_modify]
    split <;> rfl
  rw [updateMap, hmaps]

namespace Tracking

variable {s : Tracking} {live : MapId}

/-! ## What an event does -/

/-- The root that is marked when a directory was copied to the given path, if one is. -/
def copiedRoot? (s : Tracking) (p : Path) : Option Walk.Root := do
  let below ← s.copiedPath? p
  let (tablespace, database) ←
    Layout.databaseAt? below s.tracker.config.versionDirectory
  let root : Walk.Root :=
    ⟨s.tracker.config.dataDirectory.join below.text, ⟨tablespace, database⟩⟩
  if s.tracker.isExempt root.path then none else some root

/-- The marks that an event makes on the live map. -/
def eventMarks (s : Tracking) (live : MapId) : Event → List (Block × Lsn)
  | .written b l | .extended b l => [(b, l)]
  | .copied p => (s.copiedRoot? p).elim [] (s.passMarks live)
  | .checkpoint => []

/-- The tree after an event. -/
def eventTree (s : Tracking) (live : MapId) : Event → Tree
  | .written _ _ | .extended _ _ | .copied _ => s.host.tree
  | .checkpoint => MapFile.saved s.host.tree s.tracker.config.mapLocation (s.host.map live)

lemma markPasses_nil (hlive : s.live? = some live) (root : Walk.Root) :
    (s.markPasses root []).2
      = s.withHost (s.host.updateMap live (·.markAll (s.passMarks live root))) := by
  have hpass : (s.markPass live root []).2
      = s.withHost (s.host.updateMap live (·.markAll (s.passMarks live root))) := by
    rw [markPass_eq]
    rfl
  rw [markPasses, hlive, ← hpass]
  dsimp only
  split <;> rfl

lemma copied_eq_markAll (hlive : s.live? = some live) (p : Path) :
    s.copied p
      = s.withHost (s.host.updateMap live (·.markAll (s.eventMarks live (.copied p)))) := by
  have hnothing : s = s.withHost (s.host.updateMap live (·.markAll [])) := by
    rw [Host.updateMap_markAll_nil]
    rfl
  unfold copied
  simp only [eventMarks, copiedRoot?]
  cases s.copiedPath? p with
  | none => exact hnothing
  | some below =>
    cases hdatabase : Layout.databaseAt? below s.tracker.config.versionDirectory with
    | none =>
      simp only [hdatabase, Option.bind_eq_bind, Option.bind_some, Option.bind_none,
        Option.elim_none]
      exact hnothing
    | some found =>
      obtain ⟨tablespace, database⟩ := found
      simp only [hdatabase, Option.bind_eq_bind, Option.bind_some, markDirectory]
      split
      · exact hnothing
      · exact markPasses_nil hlive _

lemma checkpoint_eq_saved (hlive : s.live? = some live) :
    s.checkpoint.2 = s.withHost { s.host with
      tree := MapFile.saved s.host.tree s.tracker.config.mapLocation (s.host.map live) } := by
  unfold MapFile.saved
  rcases s.checkpoint_cases with ⟨hnone, -⟩ | ⟨live', hlive', ⟨e, hsave, heq⟩ | ⟨tree, hsave, heq⟩⟩
  · cases hlive.symm.trans hnone
  · obtain rfl := Option.some.inj (hlive.symm.trans hlive')
    rw [heq, hsave]
    rfl
  · obtain rfl := Option.some.inj (hlive.symm.trans hlive')
    rw [heq, hsave]

/-- An event marks the live map and may keep it on disk. -/
theorem handle_eq (hlive : s.live? = some live) (event : Event) :
    s.handle event = s.withHost { s.host.updateMap live (·.markAll (s.eventMarks live event)) with
      tree := s.eventTree live event } := by
  cases event with
  | written b l => exact mark_eq hlive b l
  | extended b l => exact mark_eq hlive b l
  | copied p => exact copied_eq_markAll hlive p
  | checkpoint =>
    simp only [eventMarks, Host.updateMap_markAll_nil]
    exact checkpoint_eq_saved hlive

lemma handle_of_live?_eq_none (hlive : s.live? = none) (event : Event) : s.handle event = s := by
  cases hmode : s.tracker.mode with
  | active live => simp [live?, hmode] at hlive
  | idle reason => exact handle_of_idle hmode event

@[simp] lemma tracker_handle (s : Tracking) (event : Event) :
    (s.handle event).tracker = s.tracker := by
  cases hlive : s.live? with
  | none => rw [handle_of_live?_eq_none hlive]
  | some live => rw [handle_eq hlive, tracker_withHost]

@[simp] lemma live?_handle (s : Tracking) (event : Event) : (s.handle event).live? = s.live? := by
  rw [live?, tracker_handle, live?]

@[simp] lemma position_handle (s : Tracking) (event : Event) :
    (s.handle event).host.position = s.host.position := by
  cases hlive : s.live? with
  | none => rw [handle_of_live?_eq_none hlive]
  | some live => rw [handle_eq hlive, host_withHost, Host.position_updateMap]

@[simp] lemma size_handle (s : Tracking) (event : Event) :
    (s.handle event).host.maps.size = s.host.maps.size := by
  cases hlive : s.live? with
  | none => rw [handle_of_live?_eq_none hlive]
  | some live => rw [handle_eq hlive, host_withHost, Host.size_updateMap]

lemma tree_handle (hlive : s.live? = some live) (event : Event) :
    (s.handle event).host.tree = s.eventTree live event := by
  rw [handle_eq hlive, host_withHost]

lemma tree_handle_of_ne {event : Event} (s : Tracking) (h : event ≠ .checkpoint) :
    (s.handle event).host.tree = s.host.tree := by
  cases hlive : s.live? with
  | none => rw [handle_of_live?_eq_none hlive]
  | some live =>
    rw [tree_handle hlive]
    cases event with
    | written | extended | copied => rfl
    | checkpoint => exact absurd rfl h

lemma map_handle (hlive : s.live? = some live) (event : Event) (id : MapId) :
    (s.handle event).host.map id
      = (s.host.updateMap live (·.markAll (s.eventMarks live event))).map id := by
  rw [handle_eq hlive, host_withHost]
  rfl

lemma map_handle_of_ne {id : MapId} (hne : s.live? ≠ some id) (event : Event) :
    (s.handle event).host.map id = s.host.map id := by
  cases hlive : s.live? with
  | none => rw [handle_of_live?_eq_none hlive]
  | some live =>
    rw [map_handle hlive, Host.map_updateMap, if_neg]
    rintro ⟨rfl, -⟩
    exact hne hlive

lemma map_handle_live (hs : s.Coherent) (hlive : s.live? = some live) (event : Event) :
    (s.handle event).host.map live = (s.host.map live).markAll (s.eventMarks live event) := by
  rw [map_handle hlive, Host.map_updateMap_self (hs live hlive)]

lemma valid_handle (s : Tracking) (event : Event) (id : MapId) :
    ((s.handle event).host.map id).valid = (s.host.map id).valid := by
  cases hlive : s.live? with
  | none => rw [handle_of_live?_eq_none hlive]
  | some live =>
    rw [map_handle hlive]
    exact s.valid_markHeld live _ id

/-! ## The same event again -/

lemma snd_of_mem_passMarks {root : Walk.Root} {mark : Block × Lsn}
    (h : mark ∈ s.passMarks live root) :
    mark.2 = s.host.position.latest (s.host.map live).epoch := by
  obtain ⟨b, l⟩ := mark
  exact (ChangeMap.mem_segmentMarks.mp h).1

lemma copiedRoot?_congr {s' : Tracking} (h : s'.tracker = s.tracker) (p : Path) :
    s'.copiedRoot? p = s.copiedRoot? p := by
  simp only [copiedRoot?, copiedPath?, h]

/-- An event makes the same marks again. -/
lemma eventMarks_handle (hs : s.Coherent) (hlive : s.live? = some live) (event : Event) :
    (s.handle event).eventMarks live event = s.eventMarks live event := by
  cases event with
  | written | extended | checkpoint => simp only [eventMarks]
  | copied p =>
    have hmap := map_handle_live hs hlive (.copied p)
    have htree : (s.handle (.copied p)).host.tree = s.host.tree := tree_handle hlive _
    simp only [eventMarks, copiedRoot?_congr (s.tracker_handle _)] at hmap ⊢
    cases hroot : s.copiedRoot? p with
    | none => rw [Option.elim_none, Option.elim_none]
    | some root =>
      rw [hroot, Option.elim_some] at hmap
      rw [Option.elim_some, Option.elim_some, passMarks, hmap, htree, position_handle,
        tracker_handle, ChangeMap.latest_epoch_markAll _ _ fun mark => snd_of_mem_passMarks, passMarks]

/-- **To be told of an event twice is to be told of it once.** -/
theorem handle_handle (hs : s.Coherent) (event : Event) :
    (s.handle event).handle event = s.handle event := by
  cases hlive : s.live? with
  | none => rw [handle_of_live?_eq_none hlive, handle_of_live?_eq_none hlive]
  | some live =>
    have hid := hs live hlive
    have hlive' : (s.handle event).live? = some live := (s.live?_handle event).trans hlive
    have hmap := map_handle_live hs hlive event
    have htree : (s.handle event).eventTree live event = (s.handle event).host.tree := by
      rw [tree_handle hlive]
      cases event with
      | written | extended | copied => exact tree_handle hlive _
      | checkpoint =>
        rw [eventTree, eventTree, tree_handle hlive, hmap, tracker_handle]
        exact MapFile.saved_saved _ _ _
    rw [handle_eq hlive', htree, eventMarks_handle hs hlive, Host.updateMap_of_map_eq]
    · rfl
    · rwa [size_handle]
    · rw [hmap, ChangeMap.markAll_markAll]

end Tracking

end ChangeTracking
