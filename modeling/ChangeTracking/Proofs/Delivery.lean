import ChangeTracking.Proofs.AmongOthers
import ChangeTracking.Proofs.Announcements

/-!
# Events reach all observers

All observers are told of all events, in their order (`Engine.map_deliveries`), so a recorder writes
down each event as often as it is registered (`Engine.records_run`).  A tracker becomes what it becomes
when each event is carried out on it once and nobody else is there (`Tracking.alone`), wherever in the
list of observers it is registered and however often.  For one event that is `Engine.Has.announce`.
What is told to others before the tracker's first turn is done elsewhere, then it does what it would do
alone, and after that the others and its further turns leave it as it is.  `Engine.Has.run` goes on
from event to event.

Trackers on one host are kept apart by where they save their maps: each has places of its own
(`Delivery.Owned`).  That alone does not do.  A map's file takes the place of whatever its path names,
and if that is a link which leads another tracker to its map, the other one has lost its way.  So the
places of others are required not to be in a tracker's way (`Engine.Undisturbed`).
-/

namespace ChangeTracking

open MapFile (Clear Home Site Writable saved)
open Tracking (databaseRoot databaseTree loopedTree)

/-- The places that belong to others than the given tracker. -/
def foreign (owner : Place → Option Nat) (id : Nat) (place : Place) : Bool :=
  place != [] && (owner place).any (· != id)

lemma foreign_of_savesAt {owner : Place → Option Nat} {id other : Nat} {s : Tracking} {place : Place}
    (hne : other ≠ id) (hsaves : s.SavesAt place) (howner : owner place = some other) :
    foreign owner id place = true := by
  obtain ⟨m, -, hwritable⟩ := hsaves
  have hplace : place ≠ [] := Tree.place_ne_nil hwritable.not_directory
  simp [foreign, hplace, howner, hne]

namespace Engine

variable {e : Engine} {observers : List Observer} {occurrences : List Occurrence} {event : Event}
  {o : Observer} {id : Nat}

/-! ### A tracker among the others -/

/-- The places of other trackers are out of the way of what the given tracker does when events are
announced to it. -/
def Undisturbed (e : Engine) (observers : List Observer) (owner : Place → Option Nat) (id : Nat)
    (s : Tracking) (occurrences : List Occurrence) : Prop :=
  ∀ before event after, occurrences = before ++ .event event :: after →
    (s.alone before).live? ≠ none →
      (s.alone before).Unhindered (foreign owner id) (e.run observers before).host.tree event

/-- A tracker is disturbed now or later, if at all. -/
lemma undisturbed_cons {owner : Place → Option Nat} {s : Tracking} {occurrence : Occurrence}
    {rest : List Occurrence} :
    e.Undisturbed observers owner id s (occurrence :: rest) ↔
      (∀ event, occurrence = .event event → s.live? ≠ none →
        s.Unhindered (foreign owner id) e.host.tree event) ∧
      (meet observers e occurrence).Undisturbed observers owner id (s.meet occurrence) rest := by
  constructor
  · intro h
    constructor
    · rintro event rfl
      exact h [] event rest rfl
    · rintro before event after rfl
      exact h (occurrence :: before) event after rfl
  · rintro ⟨hnow, hlater⟩ before event after hsplit
    cases before with
    | nil => exact hnow event (List.cons.inj hsplit).1
    | cons first before =>
      obtain ⟨rfl, hrest⟩ := List.cons.inj hsplit
      exact hlater before event after hrest

/-- As long as nothing comes to the tree, a tracker is undisturbed if it is so at first. -/
lemma undisturbed_of_leavesTree {owner : Place → Option Nat} {s : Tracking}
    (hleaves : ∀ occurrence ∈ occurrences.dropLast, occurrence.LeavesTree)
    (hclear : ∀ event, .event event ∈ occurrences →
      s.Unhindered (foreign owner id) e.host.tree event) :
    e.Undisturbed observers owner id s occurrences := by
  rintro before event after rfl -
  have hbefore : ∀ occurrence ∈ before, occurrence.LeavesTree := fun occurrence hmem =>
    hleaves occurrence (by
      rw [List.dropLast_append_of_ne_nil (List.cons_ne_nil _ after)]
      exact List.mem_append_left _ hmem)
  rw [tree_run hbefore,
    Tracking.unhindered_congr (s.tracker_alone before) (Tracking.tree_alone hbefore s)]
  exact hclear event (List.mem_append_right _ (List.mem_cons_self ..))

lemma unhindered_tell {places : Place → Bool} {s : Tracking}
    (h : s.Unhindered places e.host.tree event) (o : Observer) :
    s.Unhindered places (e.tell event o).host.tree event := by
  cases event with
  | written | extended => trivial
  | checkpoint => exact h
  | copied p =>
    rw [Tracking.Unhindered, tree_tell_of_ne (by simp) e o]
    exact h

/-- The engine has the given tracker, among others. -/
structure Has (places : Place → Bool) (id : Nat) (s : Tracking) (e : Engine) : Prop where
  sound : e.Sound
  among : ∃ s', e.tracking? id = some s' ∧ s.AmongOthers places s'

namespace Has

variable {places : Place → Bool} {s : Tracking}

lemma coherent (h : e.Has places id s) : s.Coherent := by
  obtain ⟨s', hid, hamong⟩ := h.among
  refine hamong.coherent fun live hlive => ?_
  rw [(tracking?_eq_some.mp hid).2]
  exact h.sound.kept id live ((live?_of_tracking? hid).trans hlive)

/-- What another observer does is done elsewhere. -/
lemma tell_other (h : e.Has places id s) (hne : o ≠ .tracker id)
    (hplaces : ∀ other r place, o = .tracker other → event = .checkpoint →
      e.tracking? other = some r → r.SavesAt place → places place = true) :
    (e.tell event o).Has places id s := by
  obtain ⟨s', hid, hamong⟩ := h.among
  refine ⟨h.sound.tell event o, s'.withHost (e.tell event o).host, ?_, ?_⟩
  · rw [tracking?_of_trackers_eq (e.trackers_tell event o), hid, Option.map_some]
  have hhost := (tracking?_eq_some.mp hid).2
  cases o with
  | recorder other =>
    rw [tell, ← hhost]
    exact hamong
  | tracker other =>
    cases hother : e.tracking? other with
    | none =>
      rw [tell_tracker_of_none hother, ← hhost]
      exact hamong
    | some r =>
      have hrhost := (tracking?_eq_some.mp hother).2
      rw [tell_tracker hother]
      refine ⟨hamong.tracker, ?_, ?_, fun live hlive => ?_, ?_⟩
      · simpa [hrhost, ← hhost] using hamong.position
      · simpa [hrhost, ← hhost] using hamong.size
      · have hapart : r.live? ≠ some live := by
          intro hr
          have hlive' := (live?_of_tracking? hid).trans (hamong.live?_eq.trans hlive)
          exact hne (congrArg _
            (h.sound.apart other id live ((live?_of_tracking? hother).trans hr) hlive'))
        rw [Tracking.host_withHost, Tracking.map_handle_of_ne hapart, hrhost, ← hhost]
        exact hamong.map live hlive
      · have htree := hamong.tree
        rw [hhost, ← hrhost] at htree
        rw [Tracking.host_withHost]
        by_cases hevent : event = .checkpoint
        · subst hevent
          cases hr : r.live? with
          | none => rwa [Tracking.handle_of_live?_eq_none hr]
          | some live =>
            rw [Tracking.tree_handle hr]
            refine htree.saved_foreign fun place hplace =>
              hplaces other r place rfl rfl hother ⟨_, Tracking.liveMap?_of_live? hr, hplace⟩
        · rwa [Tracking.tree_handle_of_ne r hevent]

lemma tell_of_among {s' r : Tracking} (hsound : e.Sound) (hid : e.tracking? id = some s')
    (h : r.AmongOthers places (s'.handle event)) :
    (e.tell event (.tracker id)).Has places id r := by
  refine ⟨hsound.tell event _, s'.handle event, ?_, h⟩
  rw [tell_tracker hid, tracking?_eq_some, Tracking.tracker_handle]
  exact ⟨(tracking?_eq_some.mp hid).1, rfl⟩

lemma tell_self (h : e.Has places id s) (hroot : places [] = false)
    (hclear : s.live? ≠ none → s.Unhindered places e.host.tree event) :
    (e.tell event (.tracker id)).Has places id (s.handle event) := by
  have hs := h.coherent
  obtain ⟨s', hid, hamong⟩ := h.among
  rw [← (tracking?_eq_some.mp hid).2] at hclear
  exact tell_of_among h.sound hid (hamong.handle hs hroot hclear)

lemma tell_again (h : e.Has places id (s.handle event)) (hroot : places [] = false)
    (hs : s.Coherent) (hclear : s.live? ≠ none → s.Unhindered places e.host.tree event) :
    (e.tell event (.tracker id)).Has places id (s.handle event) := by
  obtain ⟨s', hid, hamong⟩ := h.among
  rw [← (tracking?_eq_some.mp hid).2] at hclear
  exact tell_of_among h.sound hid (hamong.handle_again hs hroot hclear)

/-! ### Announcements and runs -/

variable {owner : Place → Option Nat}

lemma tell_other_of_owned (h : e.Has (foreign owner id) id s) (hne : o ≠ .tracker id)
    (howned : (Delivery.mk e o event).Owned owner) :
    (e.tell event o).Has (foreign owner id) id s :=
  h.tell_other hne fun other r place hother hevent hr hsaves => by
    subst hother
    exact foreign_of_savesAt (fun heq => hne (congrArg _ heq)) hsaves
      (howned other r place rfl hevent hr hsaves)

/-- A tracker that was told of an event stays as it is while the others are told, and when it is told
again. -/
lemma announce_again (h : e.Has (foreign owner id) id (s.handle event)) (hs : s.Coherent)
    (hclear : s.live? ≠ none → s.Unhindered (foreign owner id) e.host.tree event)
    (howned : ∀ d ∈ deliveriesOf event e observers, d.Owned owner) :
    (e.announce observers event).Has (foreign owner id) id (s.handle event) := by
  induction observers generalizing e with
  | nil => exact h
  | cons o rest ih =>
    obtain ⟨hfirst, hrest⟩ := List.forall_mem_cons.mp howned
    refine ih ?_ (fun hlive => unhindered_tell (hclear hlive) o) hrest
    by_cases hself : o = .tracker id
    · subst hself
      exact h.tell_again rfl hs hclear
    · exact h.tell_other_of_owned hself hfirst

/-- A registered tracker is told of the event at some time. -/
lemma announce (h : e.Has (foreign owner id) id s) (hmem : .tracker id ∈ observers)
    (hclear : s.live? ≠ none → s.Unhindered (foreign owner id) e.host.tree event)
    (howned : ∀ d ∈ deliveriesOf event e observers, d.Owned owner) :
    (e.announce observers event).Has (foreign owner id) id (s.handle event) := by
  induction observers generalizing e with
  | nil => cases hmem
  | cons o rest ih =>
    obtain ⟨hfirst, hrest⟩ := List.forall_mem_cons.mp howned
    have hclear' := fun hlive => unhindered_tell (hclear hlive) o
    by_cases hself : o = .tracker id
    · subst hself
      exact (h.tell_self rfl hclear).announce_again h.coherent hclear' hrest
    · exact ih (h.tell_other_of_owned hself hfirst)
        ((List.mem_cons.mp hmem).resolve_left (Ne.symm hself)) hclear' hrest

lemma outside {places : Place → Bool} (h : e.Has places id s) (change : Outside) :
    Has places id (s.withHost (s.host.outside change))
      { e with host := e.host.outside change } := by
  obtain ⟨s', hid, hamong⟩ := h.among
  obtain ⟨htracker, hhost⟩ := tracking?_eq_some.mp hid
  exact ⟨h.sound.outside change, s'.withHost (s'.host.outside change),
    tracking?_eq_some.mpr ⟨htracker, congrArg (·.outside change) hhost⟩, hamong.outside change⟩

/-- After a run, a registered tracker is what it is alone. -/
lemma run (h : e.Has (foreign owner id) id s) (hmem : .tracker id ∈ observers)
    (hclear : e.Undisturbed observers owner id s occurrences)
    (howned : ∀ d ∈ deliveries observers e occurrences, d.Owned owner) :
    (e.run observers occurrences).Has (foreign owner id) id (s.alone occurrences) := by
  induction occurrences generalizing e s with
  | nil => exact h
  | cons occurrence rest ih =>
    obtain ⟨hnow, hlater⟩ := undisturbed_cons.mp hclear
    cases occurrence with
    | outside change => exact ih (h.outside change) hlater howned
    | event event =>
      obtain ⟨hfirst, hrest⟩ := List.forall_mem_append.mp howned
      have htold := h.announce hmem (hnow event rfl) hfirst
      rw [← s.carryOut_eq] at htold
      exact ih htold hlater hrest

end Has

/-- **Every registration is told of every event, and trackers do not mind how often.**  Observers are
registered on an engine, possibly some of them several times.  Then events occur, and others may write
to the log or change files between them.  The live maps of the registered trackers are valid at first,
and where trackers save their maps no two of them save at the same place.

Each event is delivered to each registration once, in order, and each delivery comes to an end.  A
recorder that is registered `k` times has each event `k` times in a row.  And take a tracker that is
registered at all and that is not disturbed.  It ends as the same tracker with the same live map, if it
has one, as if the events had been carried out on it directly, once each, and on nobody else.  The tree
differs from what it would be then in nothing but files at places of other trackers, and the tracker's
map file has the same contents, as long as its path does not lead over such a place. -/
theorem events_reach_observers (he : e.Reached) (observers : List Observer)
    (occurrences : List Occurrence) (owner : Place → Option Nat)
    (hvalid : ∀ id s, .tracker id ∈ observers → e.tracking? id = some s → s.LiveValid)
    (howned : ∀ d ∈ deliveries observers e occurrences, d.Owned owner) :
    (deliveries observers e occurrences).map (fun d => (d.observer, d.event))
      = (occurrences.filterMap (·.event?)).flatMap (fun event => observers.map (·, event)) ∧
    (∀ d ∈ deliveries observers e occurrences, d.Returns) ∧
    (∀ id log, e.records[id]? = some log →
      (e.run observers occurrences).records[id]? = some (log ++
        (occurrences.filterMap (·.event?)).flatMap
          (List.replicate (observers.count (.recorder id))))) ∧
    ∀ id s, .tracker id ∈ observers → e.tracking? id = some s →
      e.Undisturbed observers owner id s occurrences →
      ∃ s', (e.run observers occurrences).tracking? id = some s' ∧
        s'.tracker = (s.alone occurrences).tracker ∧
        s'.liveMap? = (s.alone occurrences).liveMap? ∧
        (s.alone occurrences).host.tree.WithFiles (foreign owner id) s'.host.tree ∧
        ((s.alone occurrences).host.tree.leadsOver (foreign owner id)
            s.tracker.config.mapLocation = false →
          s'.host.tree.contentsAt s.tracker.config.mapLocation
            = (s.alone occurrences).host.tree.contentsAt s.tracker.config.mapLocation) := by
  refine ⟨map_deliveries observers e occurrences, returns_deliveries hvalid, fun id log hlog => ?_,
    fun id s hmem hid hclear => ?_⟩
  · rw [records_run, hlog, Option.map_some]
  · have hbegin : e.Has (foreign owner id) id s :=
      ⟨he.sound, s, hid, rfl, rfl, rfl, fun _ _ => rfl, .refl _ _⟩
    obtain ⟨-, s', hid', hamong⟩ := hbegin.run hmem hclear howned
    exact ⟨s', hid', hamong.tracker, hamong.liveMap?_eq, hamong.tree, hamong.tree.contentsAt_eq⟩

/-! ### Two trackers of one database -/

/-- Two trackers have maps in the root, one each. -/
def rootOwner (place : Place) : Option Nat :=
  if place = [.ofText "m"] then some 0 else if place = [.ofText "n"] then some 1 else none

lemma tracking?_pair {host : Host} {first second : Tracker} {records : Array (List Event)}
    {r : Tracking} (h : (Engine.mk host #[first, second] records).tracking? id = some r) :
    id = 0 ∧ r = ⟨host, first⟩ ∨ id = 1 ∧ r = ⟨host, second⟩ := by
  rcases id with _ | _ | id
  · exact .inl ⟨rfl, (Option.some.inj h).symm⟩
  · exact .inr ⟨rfl, (Option.some.inj h).symm⟩
  · cases h

/-- Two trackers may be started with their maps beside the database, which is not in their way. -/
lemma start_beside_database :
    ∃ s₀ s₁,
      Tracking.start ⟨⟨"data"⟩, 8, "v1", some ⟨"/m"⟩⟩ exemptNone ⟨databaseTree, ⟨50⟩, #[]⟩ = .ok s₀ ∧
      Tracking.start ⟨⟨"data"⟩, 8, "v1", some ⟨"/n"⟩⟩ exemptNone s₀.host = .ok s₁ ∧
      s₀.tracker.config = ⟨⟨"data"⟩, 8, "v1", some ⟨"/m"⟩⟩ ∧
      s₁.tracker.config = ⟨⟨"data"⟩, 8, "v1", some ⟨"/n"⟩⟩ ∧
      s₀.live? = some 0 ∧ s₁.live? = some 1 ∧
      (s₁.host.map 0).valid = true ∧ (s₁.host.map 1).valid = true ∧
      (Tracking.mk s₁.host s₀.tracker).copiedRoot? ⟨"base/5"⟩ = some databaseRoot ∧
      (∀ f ∈ databaseRoot.listing s₁.host.tree "v1",
        s₁.host.tree.leadsOver (foreign rootOwner 0) f.path = false) ∧
      Clear (foreign rootOwner 0) s₁.host.tree ⟨"/m"⟩ ∧
      (∀ m, Writable s₁.host.tree ⟨"/m"⟩ m [.ofText "m"]) ∧
      ∀ contents, (s₁.host.tree.put [.ofText "m"] (.file contents)).leadsOver (foreign rootOwner 0)
        ⟨"/m"⟩ = false := by
  refine ⟨_, _, rfl, rfl, rfl, rfl, rfl, rfl, rfl, rfl, rfl, ?_, ⟨?_, ?_⟩, fun m => ?_,
    fun contents => rfl⟩
  · intro f hf
    rw [Tracking.listing_databaseRoot (by decide +kernel) (by decide +kernel) (by decide +kernel) rfl,
      List.mem_singleton] at hf
    subst hf
    decide +kernel
  · decide +kernel
  · intro q hq
    cases hq
    decide +kernel
  · exact ⟨⟨[.ofText ".tmp000000"], ⟨rfl, rfl, ⟨"/.tmp000000"⟩, rfl, rfl⟩, rfl, rfl⟩, rfl⟩

/-- Two trackers of one data directory, the first of them registered twice, and a recorder. -/
theorem events_reach_observers_of_database :
    let observers : List Observer :=
      [.tracker 0, .recorder 0, .tracker 1, .tracker 0, .recorder 0]
    let copied : Event := .copied ⟨"base/5"⟩
    let extended : Event := .extended ⟨⟨defaultTablespace, 5, 16384⟩, .main, 3⟩ ⟨70⟩
    let occurrences : List Occurrence :=
      [.event copied, .outside (.advance ⟨60⟩), .event extended, .event .checkpoint]
    ∃ (e : Engine) (s s' : Tracking), e.Reached ∧ e.tracking? 0 = some s ∧ s.live? = some 0 ∧
      (e.run observers occurrences).records[0]?
        = some [copied, copied, extended, extended, .checkpoint, .checkpoint] ∧
      (e.run observers occurrences).tracking? 0 = some s' ∧
      s'.liveMap? = (s.alone occurrences).liveMap? ∧
      s'.host.tree.contentsAt ⟨"/m"⟩ = (s.alone occurrences).host.tree.contentsAt ⟨"/m"⟩ := by
  intro observers copied extended occurrences
  obtain ⟨s₀, s₁, hstart₀, hstart₁, hconfig₀, hconfig₁, hlive₀, hlive₁, hvalid₀, hvalid₁, hroot,
    hfinds, hclear, hwritable, hplain⟩ := start_beside_database
  have hreached := (((Reached.empty databaseTree ⟨50⟩).start hstart₀).start hstart₁).record
  obtain ⟨e, he⟩ : ∃ e, e = Engine.mk s₁.host #[s₀.tracker, s₁.tracker] #[[]] := ⟨_, rfl⟩
  obtain ⟨s, hs⟩ : ∃ s, s = Tracking.mk s₁.host s₀.tracker := ⟨_, rfl⟩
  have hids : ∀ id r, e.tracking? id = some r →
      id = 0 ∧ r = s ∨ id = 1 ∧ r = ⟨s₁.host, s₁.tracker⟩ := by
    rw [he, hs]
    exact fun id r => tracking?_pair
  have hvalid : ∀ id r, .tracker id ∈ observers → e.tracking? id = some r → r.LiveValid := by
    intro id r _ hr live hlive
    rcases hids id r hr with ⟨rfl, rfl⟩ | ⟨rfl, rfl⟩
    · rw [hs] at hlive ⊢
      cases hlive₀.symm.trans hlive
      exact hvalid₀
    · cases hlive₁.symm.trans hlive
      exact hvalid₁
  have howned : ∀ d ∈ deliveries observers e occurrences, d.Owned rootOwner := by
    refine owned_deliveries fun id r t m place hr hwritable => ?_
    have hspot := hwritable.spot
    rcases hids id r hr with ⟨rfl, htracker⟩ | ⟨rfl, htracker⟩
    · rw [htracker, hs, hconfig₀] at hspot
      cases hspot
      rfl
    · rw [htracker, hconfig₁] at hspot
      cases hspot
      rfl
  have hleaves : ∀ occurrence ∈ occurrences.dropLast, occurrence.LeavesTree := by
    simp [occurrences, copied, extended, Occurrence.LeavesTree]
  have hundisturbed : e.Undisturbed observers rootOwner 0 s occurrences := by
    have hhost : e.host = s.host := by rw [he, hs]
    have hfound : s.FindsClear (foreign rootOwner 0) s.host.tree ⟨"base/5"⟩ := by
      rw [hs]
      intro root hroot'
      obtain rfl := Option.some.inj (hroot.symm.trans hroot')
      rw [hconfig₀]
      exact hfinds
    have hnow : Clear (foreign rootOwner 0) s.host.tree s.tracker.config.mapLocation := by
      rw [hs, hconfig₀]
      exact hclear
    refine undisturbed_of_leavesTree hleaves fun event hevent => ?_
    cases event with
    | written | extended => trivial
    | copied p =>
      obtain rfl : p = ⟨"base/5"⟩ := by simpa [occurrences, copied, extended] using hevent
      rw [hhost]
      exact ⟨hfound, hfound⟩
    | checkpoint => exact hnow
  obtain ⟨-, -, hrecords, htrackers⟩ :=
    events_reach_observers (he ▸ hreached) observers occurrences rootOwner hvalid howned
  have hid : e.tracking? 0 = some s := by rw [he, hs]; rfl
  obtain ⟨s', hid', -, hmap, -, hcontents⟩ :=
    htrackers 0 s (by simp [observers]) hid hundisturbed
  refine ⟨e, s, s', he ▸ hreached, hid, hs ▸ hlive₀, ?_, hid', hmap, ?_⟩
  · rw [hrecords 0 [] (by rw [he]; rfl)]
    rfl
  · obtain ⟨r, hr⟩ : ∃ r, r = s.alone occurrences.dropLast := ⟨_, rfl⟩
    have htracker : r.tracker = s₀.tracker := by rw [hr, s.tracker_alone, hs]
    have htree : r.host.tree = s₁.host.tree := by rw [hr, Tracking.tree_alone hleaves, hs]
    have hconfig : s.tracker.config.mapLocation = ⟨"/m"⟩ := by rw [hs, hconfig₀]; rfl
    have hlive : r.live? = some 0 := by rw [Tracking.live?, htracker]; exact hlive₀
    have halone : s.alone occurrences = r.handle .checkpoint := by rw [hr]; rfl
    rw [hconfig] at hcontents
    apply hcontents
    rw [halone, Tracking.tree_handle hlive, Tracking.eventTree, hr, s.tracker_alone, hconfig, ← hr,
      htree, (hwritable _).saved_eq]
    exact hplain _

/-! ### A map behind a link -/

/-- A directory and nothing else. -/
def directoryTree : Tree where
  entries := [([.ofText "dir"], .directory true)]
  working := .root
  nodup := by decide

lemma one_slot : 0 < 1 ∧ 1 ≤ slotLimit := by decide

/-- A map without marks. -/
def plainMap : ChangeMap := .empty 1 ⟨100⟩ one_slot

/-- A map in the directory that the link of `loopedTree` leads to. -/
def linkedMapTree : Tree :=
  loopedTree.put [.ofText "b.map", .ofText "dir"] (.file (.ofBytes plainMap.toImage))

lemma site_linkedMapTree :
    Site linkedMapTree ⟨"link/b.map"⟩ [.ofText "b.map", .ofText "dir"]
      [.ofText ".tmp000000", .ofText "dir"] :=
  ⟨by decide +kernel, by decide +kernel, ⟨"/link/.tmp000000"⟩, by decide +kernel,
    by decide +kernel⟩

lemma writable_linkedMapTree (m : ChangeMap) :
    Writable linkedMapTree ⟨"link/b.map"⟩ m [.ofText "b.map", .ofText "dir"] :=
  site_linkedMapTree.writable m fun _ _ => rfl

lemma writable_link (m : ChangeMap) : Writable linkedMapTree ⟨"link"⟩ m [.ofText "link"] := by
  have hsite : Site linkedMapTree ⟨"link"⟩ [.ofText "link"] [.ofText ".tmp000000"] :=
    ⟨by decide +kernel, by decide +kernel, ⟨"/./.tmp000000"⟩, by decide +kernel, by decide +kernel⟩
  exact hsite.writable m fun _ _ => rfl

/-- A tracker is started whose map is reached over the link. -/
lemma start_behind_link :
    ∃ s, Tracking.start ⟨⟨"data"⟩, 8, "v1", some ⟨"link/b.map"⟩⟩ exemptNone
        ⟨loopedTree, ⟨100⟩, #[plainMap]⟩ = .ok s ∧ s.live? = some 1 ∧
      s.tracker.config.mapLocation = ⟨"link/b.map"⟩ ∧
      s.host = ⟨linkedMapTree, ⟨100⟩, #[plainMap, plainMap]⟩ := by
  have hnothing : loopedTree.contentsAt ⟨"link/b.map"⟩ = .error .notFound := by decide +kernel
  have hsite : Site loopedTree ⟨"link/b.map"⟩ [.ofText "b.map", .ofText "dir"]
      [.ofText ".tmp000000", .ofText "dir"] :=
    ⟨by decide +kernel, by decide +kernel, ⟨"/link/.tmp000000"⟩, by decide +kernel,
      by decide +kernel⟩
  have hsaved := fun m => Host.trySave_of_save (h := ⟨loopedTree, ⟨100⟩, #[plainMap]⟩)
    (hsite.writable m fun _ _ => rfl).save_eq
  refine ⟨_, Tracking.start_eq_fresh rfl (by decide) (MapFile.load_eq_ok_none hnothing) rfl,
    Tracking.live?_withNewMap _ _, ?_, ?_⟩
  · rw [Tracking.config_withNewMap]
    rfl
  · simp only [Tracking.withNewMap, Tracking.withMap, Tracking.withMode, Tracking.withHost,
      Tracking.idle, Config.mapLocation, Option.getD_some, hsaved, Host.addMap]
    rfl

/-- A tracker saves its map in the place of the link, and then the other one cannot save. -/
lemma exists_announce_checkpoint {tracker other : Tracker} {live live' : MapId}
    (htree : e.host.tree = linkedMapTree) (hother : e.trackers[0]? = some other)
    (htracker : e.trackers[1]? = some tracker)
    (hlive : (Tracking.mk e.host other).live? = some live)
    (hlive' : (Tracking.mk e.host tracker).live? = some live')
    (hlink : other.config.mapLocation = ⟨"link"⟩)
    (hbehind : tracker.config.mapLocation = ⟨"link/b.map"⟩) :
    ∃ contents, (e.announce [.tracker 0, .tracker 1] .checkpoint).host.tree
      = linkedMapTree.put [.ofText "link"] (.file contents) := by
  have hfirst := tree_tell_checkpoint hother hlive
  rw [htree, hlink, (writable_link _).saved_eq] at hfirst
  have hsecond := tree_tell_checkpoint (e := e.tell .checkpoint (.tracker 0))
    ((e.trackers_tell _ _).symm ▸ htracker) hlive'
  rw [hfirst, hbehind] at hsecond
  refine ⟨.ofBytes (e.host.map live).toImage, hsecond.trans ?_⟩
  rcases MapFile.saved_cases (linkedMapTree.put [.ofText "link"]
    (.file (.ofBytes (e.host.map live).toImage))) ⟨"link/b.map"⟩
      ((e.tell .checkpoint (.tracker 0)).host.map live') with ⟨place, hplace⟩ | ⟨-, heq⟩
  · -- the link is a file now, and leads nowhere
    cases hplace.spot
  · exact heq

/-- Two trackers whose maps are at different places, and no event but a block that was written and a
checkpoint.  The map of one tracker takes the place of the link that leads to the map of the other
one.  Alone, the other one keeps its map where it can be read back. -/
theorem checkpoint_cuts_other_map :
    let observers : List Observer := [.tracker 0, .tracker 1]
    let occurrences : List Occurrence :=
      [.event (.written ⟨⟨defaultTablespace, 5, 16384⟩, .main, 0⟩ ⟨150⟩), .event .checkpoint]
    ∃ (e : Engine) (other s s' : Tracking) (m : ChangeMap), e.Reached ∧
      e.tracking? 0 = some other ∧ e.tracking? 1 = some s ∧ other.LiveValid ∧ s.LiveValid ∧
      other.SavesAt [.ofText "link"] ∧ s.SavesAt [.ofText "b.map", .ofText "dir"] ∧
      s.tracker.config.mapLocation = ⟨"link/b.map"⟩ ∧
      (e.run observers occurrences).tracking? 1 = some s' ∧
      (s.alone occurrences).liveMap? = some m ∧
      MapFile.load (s.alone occurrences).host.tree ⟨"link/b.map"⟩ = .ok (some m) ∧
      MapFile.load s'.host.tree ⟨"link/b.map"⟩ = .error (.file .notADirectory) := by
  intro observers occurrences
  let written : Event := .written ⟨⟨defaultTablespace, 5, 16384⟩, .main, 0⟩ ⟨150⟩
  obtain ⟨s₀, hstart₀, hlive₀, hconfig₀, hlinked⟩ :
      ∃ s₀, Tracking.start ⟨⟨"data"⟩, 8, "v1", some ⟨"link"⟩⟩ exemptNone ⟨directoryTree, ⟨100⟩, #[]⟩
          = .ok s₀ ∧ s₀.live? = some 0 ∧ s₀.tracker.config.mapLocation = ⟨"link"⟩ ∧
        s₀.host.outside (.put [] (.ofText "link") (.link "dir"))
          = ⟨loopedTree, ⟨100⟩, #[plainMap]⟩ := ⟨_, rfl, rfl, rfl, rfl⟩
  obtain ⟨s, hstart, hlive, hconfig, hhost⟩ := start_behind_link
  have hreached : Reached ⟨s.host, #[s₀.tracker, s.tracker], #[]⟩ := by
    have hbefore := ((Reached.empty directoryTree ⟨100⟩).start hstart₀).outside
      (.put [] (.ofText "link") (.link "dir"))
    exact hbefore.start (hlinked ▸ hstart)
  obtain ⟨e, he⟩ : ∃ e, e = Engine.mk s.host #[s₀.tracker, s.tracker] #[] := ⟨_, rfl⟩
  have hother : e.tracking? 0 = some ⟨s.host, s₀.tracker⟩ := he ▸ rfl
  have hs : e.tracking? 1 = some s := he ▸ rfl
  have hlive' : (s.handle written).live? = some 1 := (s.live?_handle _).trans hlive
  have halone : s.alone occurrences = (s.handle written).handle .checkpoint := by
    simp only [occurrences, Tracking.alone, List.foldl, Tracking.meet, Tracking.carryOut_eq, written]
  refine ⟨e, ⟨s.host, s₀.tracker⟩, s, s.withHost (e.run observers occurrences).host,
    (s.handle written).host.map 1, he ▸ hreached, hother, hs, ?_, ?_,
    ⟨_, Tracking.liveMap?_of_live? hlive₀, ?_⟩, ⟨_, Tracking.liveMap?_of_live? hlive, ?_⟩, hconfig,
    ?_, ?_, ?_, ?_⟩
  · intro live hlive
    cases hlive₀.symm.trans hlive
    rw [hhost]
    rfl
  · intro live hlive'
    cases hlive.symm.trans hlive'
    rw [hhost]
    rfl
  · rw [hconfig₀, hhost]
    exact writable_link _
  · rw [hconfig, hhost]
    exact writable_linkedMapTree _
  · rw [tracking?_of_trackers_eq (e.trackers_run observers occurrences), hs, Option.map_some]
  · rw [halone, Tracking.liveMap?_of_live? ((Tracking.live?_handle _ _).trans hlive')]
    simp only [Tracking.handle, Host.map, Tracking.maps_checkpoint]
  · have hhome : Home linkedMapTree ⟨"link/b.map"⟩ := by
      refine MapFile.home_of_no_link site_linkedMapTree fun node hfind => ?_
      cases hfind
      rfl
    have hvalid : ((s.handle written).host.map 1).valid = true := by
      rw [Tracking.valid_handle, hhost]
      rfl
    have hsame : { (s.handle written).host.map 1 with valid := true }
        = (s.handle written).host.map 1 := ChangeMap.eq_of_parts rfl rfl hvalid.symm
    rw [halone, Tracking.tree_handle hlive', Tracking.eventTree,
      s.tree_handle_of_ne (by simp [written]), Tracking.tracker_handle, hconfig, hhost,
      hhome.load_saved (writable_linkedMapTree _), hsame]
  · have htrackers := e.trackers_run observers [.event written]
    have htree : (e.run observers [.event written]).host.tree = linkedMapTree := by
      rw [tree_run (by simp [written, Occurrence.LeavesTree]), he, hhost]
    obtain ⟨contents, hcontents⟩ := exists_announce_checkpoint htree
      (htrackers.symm ▸ he ▸ rfl) (htrackers.symm ▸ he ▸ rfl) hlive₀ hlive hconfig₀ hconfig
    have hcut : (linkedMapTree.put [.ofText "link"] (.file contents)).contentsAt ⟨"link/b.map"⟩
        = .error .notADirectory := rfl
    have hrun : e.run observers occurrences
        = (e.run observers [.event written]).announce observers .checkpoint := rfl
    rw [Tracking.host_withHost, hrun, hcontents, MapFile.load, hcut]

end Engine

end ChangeTracking
