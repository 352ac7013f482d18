import ChangeTracking.Proofs.Engines

/-!
# A tracker among others

A tracker that has a host to itself is compared with the same tracker on a host on which others save
their maps as well.  Both have the same live map, and the tree of the second one has files at places
that belong to the others (`Tracking.AmongOthers`).

An event does the same to both (`AmongOthers.handle`), unless the places of the others are in its way
(`Unhindered`): a map may be reached over a link that another map's file has taken the place of, and
so may the relation files of a copied directory.  The tracker on the shared host may also be told of
the event again when others were told meanwhile.  That changes nothing either
(`AmongOthers.handle_again`), although the way to its map need not be clear any more, since the map
itself may have been put there.
-/

namespace ChangeTracking

open MapFile (Clear)

namespace Tracking

variable {places : Place → Bool} {s s' : Tracking} {t : Tree} {live : MapId} {event : Event}

lemma coherent_handle (hs : s.Coherent) (event : Event) : (s.handle event).Coherent := by
  rw [Coherent, live?_handle, size_handle]
  exact hs

/-- Both are the same tracker, with the same live map, and the second one has files at some of the
places in its tree. -/
structure AmongOthers (places : Place → Bool) (s s' : Tracking) : Prop where
  tracker : s'.tracker = s.tracker
  position : s'.host.position = s.host.position
  size : s'.host.maps.size = s.host.maps.size
  map : ∀ live, s.live? = some live → s'.host.map live = s.host.map live
  tree : s.host.tree.WithFiles places s'.host.tree

/-- No relation file that a tracker finds where a directory was copied to is reached over one of the
places. -/
def FindsClear (places : Place → Bool) (s : Tracking) (t : Tree) (p : Path) : Prop :=
  ∀ root, s.copiedRoot? p = some root →
    ∀ f ∈ root.listing t s.tracker.config.versionDirectory, t.leadsOver places f.path = false

/-- An event does not bring a tracker to the given places, be it in its own tree or in the given one,
which has files there. -/
def Unhindered (places : Place → Bool) (s : Tracking) (t : Tree) : Event → Prop
  | .written _ _ | .extended _ _ => True
  | .copied p => s.FindsClear places s.host.tree p ∧ s.FindsClear places t p
  | .checkpoint => Clear places s.host.tree s.tracker.config.mapLocation

namespace AmongOthers

variable (h : s.AmongOthers places s')

include h

lemma live?_eq : s'.live? = s.live? := by
  rw [live?, live?, h.tracker]

lemma liveMap?_eq : s'.liveMap? = s.liveMap? := by
  rw [liveMap?, liveMap?, h.live?_eq]
  cases hlive : s.live? with
  | none => rfl
  | some live => exact congrArg some (h.map live hlive)

lemma coherent (hs' : s'.Coherent) : s.Coherent := by
  rwa [Coherent, h.live?_eq, h.size] at hs'

lemma eventMarks_eq (hroot : places [] = false) (hlive : s.live? = some live)
    (hclear : s.Unhindered places s'.host.tree event) :
    s'.eventMarks live event = s.eventMarks live event := by
  cases event with
  | written | extended | checkpoint => simp only [eventMarks]
  | copied p =>
    simp only [eventMarks, copiedRoot?_congr h.tracker]
    cases hroot? : s.copiedRoot? p with
    | none => rw [Option.elim_none, Option.elim_none]
    | some root =>
      have hlisting : root.listing s'.host.tree s.tracker.config.versionDirectory
          = root.listing s.host.tree s.tracker.config.versionDirectory :=
        Walk.listing_eq_of_same_off hroot h.tree.working (fun _ => h.tree.find?_of_not_mem)
          (hclear.1 root hroot?) (hclear.2 root hroot?)
      simp only [Option.elim_some, passMarks, h.tracker, h.position, h.map live hlive, hlisting]

/-- An event that makes the same marks keeps them so, if the trees are related after it. -/
lemma handle_of_tree (hs : s.Coherent)
    (hmarks : ∀ live, s.live? = some live → s'.eventMarks live event = s.eventMarks live event)
    (htree : (s.handle event).host.tree.WithFiles places (s'.handle event).host.tree) :
    (s.handle event).AmongOthers places (s'.handle event) where
  tracker := by rw [tracker_handle, tracker_handle, h.tracker]
  position := by rw [position_handle, position_handle, h.position]
  size := by rw [size_handle, size_handle, h.size]
  map live hlive := by
    rw [live?_handle] at hlive
    have hs' : s'.Coherent := by rwa [Coherent, h.live?_eq, h.size]
    rw [map_handle_live hs hlive, map_handle_live hs' (h.live?_eq.trans hlive), hmarks live hlive,
      h.map live hlive]
  tree := htree

/-- An event does the same to both. -/
lemma handle (hs : s.Coherent) (hroot : places [] = false)
    (hclear : s.live? ≠ none → s.Unhindered places s'.host.tree event) :
    (s.handle event).AmongOthers places (s'.handle event) := by
  refine h.handle_of_tree hs (fun live hlive => h.eventMarks_eq hroot hlive ?_) ?_
  · exact hclear (by rw [hlive]; exact Option.some_ne_none live)
  cases hlive : s.live? with
  | none =>
    rw [handle_of_live?_eq_none hlive, handle_of_live?_eq_none (h.live?_eq.trans hlive)]
    exact h.tree
  | some live =>
    rw [tree_handle hlive, tree_handle (h.live?_eq.trans hlive)]
    cases event with
    | written | extended | copied => exact h.tree
    | checkpoint =>
      rw [eventTree, eventTree, h.tracker, h.map live hlive]
      exact h.tree.saved (hclear (by rw [hlive]; exact Option.some_ne_none live)) _

end AmongOthers

lemma findsClear_congr (h : s'.tracker = s.tracker) (p : Path) :
    s'.FindsClear places t p ↔ s.FindsClear places t p := by
  simp only [FindsClear, copiedRoot?_congr h, h]

lemma unhindered_congr (htracker : s'.tracker = s.tracker) (htree : s'.host.tree = s.host.tree) :
    s'.Unhindered places t event ↔ s.Unhindered places t event := by
  cases event with
  | written | extended => rfl
  | copied p =>
    rw [Unhindered, Unhindered, htree, findsClear_congr htracker, findsClear_congr htracker]
  | checkpoint => rw [Unhindered, Unhindered, htree, htracker]

/-- Among others, to be told of an event again changes nothing but that a map which the others had cut
off may be kept again. -/
lemma AmongOthers.handle_again (h : (s.handle event).AmongOthers places s') (hs : s.Coherent)
    (hroot : places [] = false)
    (hclear : s.live? ≠ none → s.Unhindered places s'.host.tree event) :
    (s.handle event).AmongOthers places (s'.handle event) := by
  have hs' := coherent_handle hs event
  have htwice : ((s.handle event).handle event).AmongOthers places (s'.handle event) := by
    cases event with
    | written | extended => exact h.handle hs' hroot fun _ => trivial
    | copied p =>
      refine h.handle hs' hroot fun hlive => ?_
      rw [live?_handle] at hlive
      exact (unhindered_congr (s.tracker_handle _) (s.tree_handle_of_ne (by simp))).mpr
        (hclear hlive)
    | checkpoint =>
      refine h.handle_of_tree hs' (fun live hlive => by simp only [eventMarks]) ?_
      rw [handle_handle hs]
      cases hlive : s.live? with
      | none =>
        have hlive' : s'.live? = none := (h.live?_eq.trans (s.live?_handle _)).trans hlive
        rw [handle_of_live?_eq_none hlive']
        exact h.tree
      | some live =>
        have hlive' : s'.live? = some live := (h.live?_eq.trans (s.live?_handle _)).trans hlive
        have hmap : s'.host.map live = s.host.map live := by
          rw [h.map live ((s.live?_handle _).trans hlive), map_handle_live hs hlive, eventMarks,
            ChangeMap.markAll_nil]
        have htree := h.tree
        rw [tree_handle hlive, eventTree] at htree
        rw [tree_handle hlive, tree_handle hlive', eventTree, eventTree, h.tracker, tracker_handle,
          hmap]
        exact htree.saved_again
  rwa [handle_handle hs] at htwice

/-- What others do around both keeps them so. -/
lemma AmongOthers.outside (h : s.AmongOthers places s') (change : Outside) :
    (s.withHost (s.host.outside change)).AmongOthers places
      (s'.withHost (s'.host.outside change)) where
  tracker := h.tracker
  position := by
    cases change with
    | advance position => rfl
    | put | remove | enter | refuse => exact h.position
  size := by simpa using h.size
  map live hlive := by simpa [Host.map] using h.map live hlive
  tree := by
    cases change with
    | advance position => exact h.tree
    | put directory name node => exact h.tree.put (List.cons_ne_nil name directory) node
    | remove directory name => exact h.tree.remove (List.cons_ne_nil name directory)
    | enter there => exact h.tree.withWorking there
    | refuse refusal? => exact h.tree.withRefusal refusal?

end Tracking

end ChangeTracking
