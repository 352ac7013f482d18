import ChangeTracking.Proofs.MapFiles
import ChangeTracking.Proofs.Reports

/-!
# Trackers resume where they were

A tracker keeps its live map on disk when it starts with a new one, when the map is replaced, at
checkpoints and when it stops.  Each time a `Snapshot` is taken, which says what the map was and
whether it was kept: the system may refuse to have the file made, written or moved, and a tracker that
starts, stops or is given a new map goes on without.

The last snapshot that was kept is what is on disk after every action (`OnDisk`), as long as the map's
path stays a home for it and nobody else touches the file (`Undisturbed`); and the last one that was
taken is of the live map, while there is one (`Backed`).  So a tracker that is started then takes up
exactly the map that was kept last, whenever the one before it came to its end, and that is the last
one that was taken unless it was refused (`start_resumes`).

Three things can keep a map from the disk.  The temporary file has an absolute path, which may be
missing or too long though the map's own path is good; a path may lead over the map's own file, so that
the first map put there cuts it; and the system may refuse (`start_cannot_resume`).
-/

namespace ChangeTracking

/-- A map as it was when it was to be kept on disk, with its number. -/
structure Snapshot where
  id : MapId
  map : ChangeMap
  /-- Whether it was kept. -/
  kept : Bool

/-- The map as it is read back from disk. -/
def Snapshot.restored (k : Snapshot) : ChangeMap := { k.map with valid := true }

/-- Of some snapshots, the latest of which is in front, the last one that was kept. -/
def lastKept? (taken : List Snapshot) : Option Snapshot := taken.find? (·.kept)

namespace Tracking

variable {s s' : Tracking} {taken : List Snapshot} {m : ChangeMap}

/-! ## What is to be kept on disk -/

/-- The live map as it is now, when it is to be kept in a tree. -/
def snapshot? (s : Tracking) (t : Tree) : Option Snapshot :=
  s.live?.map fun live =>
    ⟨live, s.host.map live, (MapFile.save t s.tracker.config.mapLocation (s.host.map live)).isOk⟩

/-- The snapshot of a start: of the new map, or of the one on disk, which is kept already. -/
def snapshotOfStart? (s : Tracking) (t : Tree) : Option Snapshot :=
  match MapFile.load t s.tracker.config.mapLocation with
  | .ok (some m) =>
    if m.slotCount = s.tracker.config.mapSize.toNat / slotBytes then
      s.live?.map fun live => ⟨live, s.host.map live, true⟩
    else s.snapshot? t
  | _ => s.snapshot? t

/-- The snapshot that an interruption takes: of the new map if the live map is replaced by a good one,
and of the last one of a tracker that stops. -/
def takenByInterruption (s : Tracking) : Interruption → List Snapshot
  | .replaceMap bytes =>
    match s.replaceMap bytes with
    | (.ok _, s') => (s'.snapshot? s.host.tree).toList
    | (.error _, _) => []
  | .stop => (s.snapshot? s.host.tree).toList

/-- The snapshots that some interruptions take, the latest in front. -/
def takenByAll (s : Tracking) : List Interruption → List Snapshot
  | [] => []
  | e :: rest => (s.interrupt e).takenByAll rest ++ s.takenByInterruption e

/-- The snapshots that are taken while a directory is marked in passes. -/
def takenByPasses (s : Tracking) (root : Walk.Root) : List (List Interruption) → List Snapshot
  | [] => []
  | now :: later =>
    match s.live? with
    | none => []
    | some live =>
      let next := (s.markPass live root now).2
      if (next.host.map live).valid then s.takenByAll now
      else next.takenByPasses root later ++ s.takenByAll now

/-- The snapshots that an action takes.  A checkpoint that fails takes none. -/
def takenBy (s : Tracking) : Action → List Snapshot
  | .replaceMap bytes => s.takenByInterruption (.replaceMap bytes)
  | .stop => s.takenByInterruption .stop
  | .checkpoint =>
    match s.checkpoint.1 with
    | .ok _ => (s.snapshot? s.host.tree).toList
    | .error _ => []
  | .markDirectory root events =>
    if s.tracker.isExempt root.path then [] else s.takenByPasses root events
  | .mark .. | .scan _ | .advance _ | .changeTree _ => []

/-- The snapshots that some actions take, the latest in front. -/
def snapshots (s : Tracking) : List Action → List Snapshot
  | [] => []
  | a :: rest => (s.step a).snapshots rest ++ s.takenBy a

lemma snapshots_append (s : Tracking) (first second : List Action) :
    s.snapshots (first ++ second) = (s.run first).snapshots second ++ s.snapshots first := by
  induction first generalizing s with
  | nil => simp [snapshots]
  | cons a rest ih => simp [snapshots, ih]

lemma snapshot?_eq_some {t : Tree} {k : Snapshot} :
    s.snapshot? t = some k ↔ s.live? = some k.id ∧ s.host.map k.id = k.map ∧
      (MapFile.save t s.tracker.config.mapLocation k.map).isOk = k.kept := by
  obtain ⟨id, map, kept⟩ := k
  cases hlive : s.live? with
  | none => simp [snapshot?, hlive]
  | some live =>
    simp only [snapshot?, hlive, Option.map_some, Option.some.injEq, Snapshot.mk.injEq]
    constructor
    · rintro ⟨rfl, rfl, rfl⟩
      exact ⟨rfl, rfl, rfl⟩
    · rintro ⟨rfl, rfl, rfl⟩
      exact ⟨rfl, rfl, rfl⟩

lemma snapshot?_of_live? {live : MapId} (h : s.live? = some live) (t : Tree) :
    s.snapshot? t = some ⟨live, s.host.map live,
      (MapFile.save t s.tracker.config.mapLocation (s.host.map live)).isOk⟩ := by
  rw [snapshot?, h, Option.map_some]

lemma snapshot?_withNewMap (s : Tracking) (m : ChangeMap) (t : Tree) :
    (s.withNewMap m).snapshot? t
      = some ⟨s.host.maps.size, m, (MapFile.save t s.tracker.config.mapLocation m).isOk⟩ := by
  rw [snapshot?_of_live? (s.live?_withNewMap m), config_withNewMap,
    Host.map_of_maps_eq_push (s.maps_withNewMap m)]

/-! ## What is taken was live -/

/-- A snapshot is of the live map at some time after now. -/
def TakenLater (s : Tracking) (k : Snapshot) : Prop :=
  ∃ s', s.LeadsTo s' ∧ s'.live? = some k.id ∧ s'.host.map k.id = k.map

lemma TakenLater.of_leadsTo {k : Snapshot} (hs : s.LeadsTo s') (h : s'.TakenLater k) :
    s.TakenLater k := by
  obtain ⟨s'', hlater, hk⟩ := h
  exact ⟨s'', hs.trans hlater, hk⟩

lemma takenLater_of_snapshot? {t : Tree} {k : Snapshot} (hs : s.LeadsTo s')
    (h : k ∈ (s'.snapshot? t).toList) : s.TakenLater k := by
  obtain ⟨hlive, hmap, -⟩ := snapshot?_eq_some.mp (Option.mem_toList.mp h)
  exact ⟨s', hs, hlive, hmap⟩

lemma takenLater_interruption {e : Interruption} {k : Snapshot}
    (h : k ∈ s.takenByInterruption e) : s.TakenLater k := by
  cases e with
  | replaceMap bytes =>
    rw [takenByInterruption] at h
    split at h
    · next s' heq =>
      have hleads := s.leadsTo_replaceMap bytes
      rw [heq] at hleads
      exact takenLater_of_snapshot? hleads h
    · cases h
  | stop => exact takenLater_of_snapshot? (.refl s) h

lemma takenLater_all {events : List Interruption} {k : Snapshot}
    (h : k ∈ s.takenByAll events) : s.TakenLater k := by
  induction events generalizing s with
  | nil => cases h
  | cons e rest ih =>
    rcases List.mem_append.mp h with hlater | hnow
    · exact .of_leadsTo (s.leadsTo_interrupt e) (ih hlater)
    · exact takenLater_interruption hnow

lemma takenLater_passes {root : Walk.Root} {events : List (List Interruption)} {k : Snapshot}
    (h : k ∈ s.takenByPasses root events) : s.TakenLater k := by
  induction events generalizing s with
  | nil => cases h
  | cons now later ih =>
    rw [takenByPasses] at h
    split at h
    · cases h
    · next live _ =>
      dsimp only at h
      split at h
      · exact takenLater_all h
      · rcases List.mem_append.mp h with hlater | hnow
        · exact .of_leadsTo (s.leadsTo_markPass live root now) (ih hlater)
        · exact takenLater_all hnow

lemma takenLater_step {a : Action} {k : Snapshot} (h : k ∈ s.takenBy a) : s.TakenLater k := by
  cases a with
  | markDirectory root events =>
    rw [takenBy] at h
    split at h
    · cases h
    · exact takenLater_passes h
  | replaceMap bytes =>
    rw [takenBy] at h
    exact takenLater_interruption h
  | checkpoint =>
    rw [takenBy] at h
    split at h
    · exact takenLater_of_snapshot? (.refl s) h
    · cases h
  | stop =>
    rw [takenBy] at h
    exact takenLater_interruption h
  | mark | scan | advance | changeTree => cases h

lemma takenLater_run {actions : List Action} {k : Snapshot} (h : k ∈ s.snapshots actions) :
    s.TakenLater k := by
  induction actions generalizing s with
  | nil => cases h
  | cons a rest ih =>
    rcases List.mem_append.mp h with hlater | hnow
    · exact .of_leadsTo (s.leadsTo_step a) (ih hlater)
    · exact takenLater_step hnow

/-- What could be read from a map can be read from a snapshot of it that is taken later. -/
lemma growsTo_of_takenLater {k : Snapshot} (h : s.TakenLater k) (hkept : k.id < s.host.maps.size) :
    (s.host.map k.id).GrowsTo k.map := by
  obtain ⟨s', hlater, -, hmap⟩ := h
  rw [← hmap]
  exact hlater.host.map k.id hkept

/-! ## What is on disk -/

/-- The last of the snapshots that was kept is on disk, or what was there before if none was, and
another map can take its place. -/
structure OnDisk (p : Path) (before : Except FileError Contents) (t : Tree) (taken : List Snapshot) :
    Prop where
  home : MapFile.Home t p
  file : ∀ k, lastKept? taken = some k → MapFile.load t p = .ok (some k.restored)
  untouched : lastKept? taken = none → t.contentsAt p = before

section OnDisk

variable {p : Path} {before : Except FileError Contents} {t : Tree}

lemma OnDisk.refuse (h : OnDisk p before t taken) (id : MapId) (m : ChangeMap) :
    OnDisk p before t (⟨id, m, false⟩ :: taken) :=
  ⟨h.home, h.file, h.untouched⟩

/-- A snapshot of what is on disk already. -/
lemma OnDisk.attach (h : OnDisk p before t taken) {id : MapId}
    (hload : MapFile.load t p = .ok (some m)) :
    OnDisk p before t (⟨id, m, true⟩ :: taken) where
  home := h.home
  file k hk := by
    obtain rfl : ⟨id, m, true⟩ = k := Option.some.inj hk
    have hvalid := MapFile.valid_of_load hload
    rw [hload, Snapshot.restored, ← hvalid]
  untouched hnone := by cases hnone

/-- A snapshot is on disk if it is kept, and makes no difference otherwise. -/
lemma OnDisk.save (h : OnDisk p before t taken) {t' : Tree} (id : MapId)
    (hsave : MapFile.save t p m = .ok t') : OnDisk p before t' (⟨id, m, true⟩ :: taken) := by
  obtain ⟨hhome, hload⟩ := h.home.save_load hsave
  refine ⟨hhome, fun k hk => ?_, fun hnone => by cases hnone⟩
  obtain rfl : ⟨id, m, true⟩ = k := Option.some.inj hk
  exact hload

/-- Whether a snapshot is kept or refused, what is on disk is the last one that was kept. -/
lemma OnDisk.trySave {host : Host} (h : OnDisk p before host.tree taken) (id : MapId) (m : ChangeMap) :
    OnDisk p before (host.trySave p m).tree
      (⟨id, m, (MapFile.save host.tree p m).isOk⟩ :: taken) := by
  cases hsave : MapFile.save host.tree p m with
  | ok t' =>
    rw [Host.trySave_of_save hsave]
    exact h.save id hsave
  | error e =>
    rw [Host.trySave_of_error hsave]
    exact h.refuse id m

end OnDisk

/-- The last snapshot that was kept is on disk, and if the tracker is active, the last one that was
taken is its live map, or what that was. -/
structure Backed (s : Tracking) (before : Except FileError Contents) (taken : List Snapshot) :
    Prop where
  coherent : s.Coherent
  disk : OnDisk s.tracker.config.mapLocation before s.host.tree taken
  live : ∀ live, s.live? = some live → (s.host.map live).valid = true ∧
    ∃ k, taken.head? = some k ∧ k.id = live ∧ k.map.GrowsTo (s.host.map live)

variable {before : Except FileError Contents}

/-- A tracker is backed with a new live map, once a snapshot of it was taken. -/
lemma backed_of_push {k : Snapshot} (hlive : s'.live? = some s.host.maps.size)
    (hmaps : s'.host.maps = s.host.maps.push m) (hvalid : m.valid = true)
    (hk : k.id = s.host.maps.size ∧ k.map = m)
    (hdisk : OnDisk s'.tracker.config.mapLocation before s'.host.tree (k :: taken)) :
    s'.Backed before (k :: taken) := by
  refine ⟨fun live hnow => ?_, hdisk, fun live hnow => ?_⟩
  all_goals obtain rfl := Option.some.inj (hlive.symm.trans hnow)
  · simp [hmaps]
  · rw [Host.map_of_maps_eq_push hmaps]
    refine ⟨hvalid, k, rfl, hk.1, ?_⟩
    rw [hk.2]

/-- A map that was loaded is on disk. -/
lemma backed_withMap (hdisk : OnDisk s.tracker.config.mapLocation before s.host.tree taken)
    (hload : MapFile.load s.host.tree s.tracker.config.mapLocation = .ok (some m)) :
    (s.withMap m).Backed before (⟨s.host.maps.size, m, true⟩ :: taken) := by
  refine backed_of_push (s.live?_withMap m) (s.maps_withMap m) (MapFile.valid_of_load hload)
    ⟨rfl, rfl⟩ ?_
  rw [config_withMap, tree_withMap]
  exact hdisk.attach hload

/-- A new map is on disk if it is not refused. -/
lemma backed_withNewMap (hdisk : OnDisk s.tracker.config.mapLocation before s.host.tree taken)
    (hvalid : m.valid = true) :
    (s.withNewMap m).Backed before
      (((s.withNewMap m).snapshot? s.host.tree).toList ++ taken) := by
  rw [snapshot?_withNewMap, Option.toList_some, List.singleton_append]
  refine backed_of_push (s.live?_withNewMap m) (s.maps_withNewMap m) hvalid ⟨rfl, rfl⟩ ?_
  rw [config_withNewMap, tree_withNewMap]
  exact hdisk.trySave _ m

namespace Backed

lemma retireLive (h : s.Backed before taken) (reason : IdleReason) :
    (s.retireLive.withMode (.idle reason)).Backed before taken where
  coherent live hlive := by simp at hlive
  disk := by simpa using h.disk
  live live hlive := by simp at hlive

/-- An active tracker keeps its live map at a checkpoint that does not fail. -/
lemma checkpoint (h : s.Backed before taken) :
    s.checkpoint.2.Backed before (s.takenBy .checkpoint ++ taken) := by
  rw [takenBy]
  rcases s.checkpoint_cases with ⟨hlive, heq⟩ | ⟨live, hlive, ⟨e, -, heq⟩ | ⟨t, hsave, heq⟩⟩
  · rw [heq, snapshot?, hlive]
    exact h
  · rw [heq]
    exact h
  · have hkept : s.snapshot? s.host.tree = some ⟨live, s.host.map live, true⟩ := by
      rw [snapshot?_of_live? hlive, hsave]
      rfl
    rw [heq, hkept]
    refine ⟨h.coherent, h.disk.save live hsave, fun live' hlive' => ?_⟩
    obtain rfl := Option.some.inj (hlive.symm.trans hlive')
    exact ⟨(h.live live hlive).1, _, rfl, rfl, .refl _⟩

lemma stop (h : s.Backed before taken) :
    s.stop.Backed before (s.takenByInterruption .stop ++ taken) := by
  rw [stop_eq, takenByInterruption]
  have hcheckpoint := h.checkpoint
  rw [takenBy] at hcheckpoint
  rcases s.checkpoint_cases with ⟨-, heq⟩ | ⟨live, hlive, ⟨e, hsave, heq⟩ | ⟨t, -, heq⟩⟩
  · rw [heq] at hcheckpoint ⊢
    exact hcheckpoint.retireLive .stopped
  · -- the map is not kept, and that is not told to anybody
    have hrefused : s.snapshot? s.host.tree = some ⟨live, s.host.map live, false⟩ := by
      rw [snapshot?_of_live? hlive, hsave]
      rfl
    rw [heq, hrefused]
    have hretired := h.retireLive .stopped
    exact ⟨hretired.coherent, hretired.disk.refuse _ _, fun live hlive => by simp at hlive⟩
  · rw [heq] at hcheckpoint ⊢
    exact hcheckpoint.retireLive .stopped

lemma replaceMap (h : s.Backed before taken) (bytes : UInt64) :
    (s.replaceMap bytes).2.Backed before (s.takenByInterruption (.replaceMap bytes) ++ taken) := by
  rw [takenByInterruption]
  rcases s.replaceMap_cases bytes with ⟨-, heq⟩ | ⟨-, m, hm, heq⟩
  · rw [heq]
    exact h
  · rw [heq]
    have hdisk : OnDisk s.retireLive.tracker.config.mapLocation before s.retireLive.host.tree
        taken := by
      simpa using h.disk
    have hnew := backed_withNewMap hdisk (ChangeMap.valid_create hm)
    rw [tree_retireLive] at hnew
    exact hnew

lemma interrupt (h : s.Backed before taken) (e : Interruption) :
    (s.interrupt e).Backed before (s.takenByInterruption e ++ taken) := by
  cases e with
  | replaceMap bytes => exact h.replaceMap bytes
  | stop => exact h.stop

lemma interrupts (h : s.Backed before taken) (events : List Interruption) :
    (events.foldl Tracking.interrupt s).Backed before (s.takenByAll events ++ taken) := by
  induction events generalizing s taken with
  | nil => exact h
  | cons e rest ih =>
    have hrest := ih (h.interrupt e)
    rw [takenByAll, List.append_assoc]
    exact hrest

lemma markAll (h : s.Backed before taken) (id : MapId) (marks : List (Block × Lsn)) :
    (s.withHost (s.host.updateMap id (·.markAll marks))).Backed before taken := by
  have hkeeps (live : MapId) : s.Keeps live _ := s.keeps_markAll id marks
  refine ⟨(s.leadsTo_markAll id marks).coherent h.coherent, h.disk, ?_⟩
  intro live hlive
  obtain ⟨hvalid, k, hk, hid, hgrows⟩ := h.live live hlive
  have hlater := (s.leadsTo_markAll id marks).host.map live (h.coherent live hlive)
  exact ⟨(hkeeps live).valid.trans hvalid, k, hk, hid, hgrows.trans hlater⟩

lemma markPass (h : s.Backed before taken) (live : MapId) (root : Walk.Root)
    (events : List Interruption) :
    (s.markPass live root events).2.Backed before (s.takenByAll events ++ taken) := by
  rw [markPass_eq]
  exact (h.interrupts events).markAll live _

lemma markPasses (h : s.Backed before taken) (root : Walk.Root)
    (events : List (List Interruption)) :
    (s.markPasses root events).2.Backed before (s.takenByPasses root events ++ taken) := by
  induction events generalizing s taken with
  | nil =>
    rw [Tracking.markPasses, takenByPasses]
    split
    · exact h
    · next live _ =>
      have hpass := h.markPass live root []
      dsimp only
      split <;> exact hpass
  | cons now later ih =>
    cases hlive : s.live? with
    | none =>
      simp only [Tracking.markPasses, takenByPasses, hlive]
      exact h
    | some live =>
      have hpass := h.markPass live root now
      simp only [Tracking.markPasses, takenByPasses, hlive]
      split
      · exact hpass
      · rw [List.append_assoc]
        exact ih hpass

end Backed

/-! ## Runs -/

/-- Whether an action leaves the map's file alone, and its path a home for it.  What the system refuses
may change at any time. -/
def Undisturbing (s : Tracking) : Action → Prop
  | .changeTree t =>
    MapFile.Home t s.tracker.config.mapLocation ∧
      t.contentsAt s.tracker.config.mapLocation
        = s.host.tree.contentsAt s.tracker.config.mapLocation
  | _ => True

/-- All of the actions leave the map's file alone. -/
def Undisturbed (s : Tracking) : List Action → Prop
  | [] => True
  | a :: rest => s.Undisturbing a ∧ (s.step a).Undisturbed rest

lemma undisturbed_append {first second : List Action} :
    s.Undisturbed (first ++ second) ↔
      s.Undisturbed first ∧ (s.run first).Undisturbed second := by
  induction first generalizing s with
  | nil => simp [Undisturbed]
  | cons a rest ih => simp [Undisturbed, ih, and_assoc]

namespace Backed

lemma mark (h : s.Backed before taken) (b : Block) (l : Lsn) : (s.mark b l).Backed before taken := by
  cases hlive : s.live? with
  | none =>
    rw [mark_eq_self hlive]
    exact h
  | some live =>
    rw [mark_eq hlive]
    exact h.markAll live _

lemma markDirectory (h : s.Backed before taken) (root : Walk.Root)
    (events : List (List Interruption)) :
    (s.markDirectory root events).2.Backed before
      (s.takenBy (.markDirectory root events) ++ taken) := by
  rw [Tracking.markDirectory, takenBy]
  split
  · exact h
  · exact h.markPasses root events

lemma changeTree (h : s.Backed before taken) {t : Tree} (ht : s.Undisturbing (.changeTree t)) :
    (s.withHost { s.host with tree := t }).Backed before taken where
  coherent := h.coherent
  disk := by
    refine ⟨ht.1, fun k hk => ?_, fun hnone => ht.2.trans (h.disk.untouched hnone)⟩
    have hload := h.disk.file k hk
    rw [MapFile.load, ← ht.2] at hload
    exact hload
  live := h.live

lemma step (h : s.Backed before taken) {a : Action} (ha : s.Undisturbing a) :
    (s.step a).Backed before (s.takenBy a ++ taken) := by
  cases a with
  | mark b l => exact h.mark b l
  | markDirectory root events => exact h.markDirectory root events
  | replaceMap bytes => exact h.replaceMap bytes
  | checkpoint => exact h.checkpoint
  | stop => exact h.stop
  | scan baseline => exact h
  | advance position => exact ⟨h.coherent, h.disk, h.live⟩
  | changeTree t => exact h.changeTree ha

lemma run (h : s.Backed before taken) {actions : List Action} (hactions : s.Undisturbed actions) :
    (s.run actions).Backed before (s.snapshots actions ++ taken) := by
  induction actions generalizing s taken with
  | nil => exact h
  | cons a rest ih =>
    have hrest := ih (h.step hactions.1) hactions.2
    rw [snapshots, List.append_assoc]
    exact hrest

end Backed

/-! ## Starting again -/

/-- Settings stay acceptable with every size that a map can have. -/
lemma check_resize {config : Config} (hcheck : config.check = .ok ()) {bytes : UInt64}
    (hsize : GoodMapSize bytes) : ({ config with mapSize := bytes } : Config).check = .ok () := by
  unfold Config.check at hcheck ⊢
  split at hcheck
  · cases hcheck
  · next hdata =>
    split at hcheck
    · cases hcheck
    · next hversion =>
      rw [if_neg hdata, if_neg hversion, slotsFor_eq_ok hsize]
      split <;> rfl

/-- A snapshot is on disk: it is read back, and a tracker that is started with a size that gives as
many slots goes on with exactly its slots and its epoch. -/
structure Resumes (config : Config) (t : Tree) (k : Snapshot) : Prop where
  loaded : MapFile.load t config.mapLocation = .ok (some k.restored)
  started : ∀ bytes isExempt host, GoodMapSize bytes → bytes.toNat / slotBytes = k.map.slotCount →
    host.tree = t → ∃ s, start { config with mapSize := bytes } isExempt host = .ok s ∧
      s.liveMap? = some k.restored

lemma resumes_of_load {config : Config} (hcheck : config.check = .ok ()) {k : Snapshot} {t : Tree}
    (hload : MapFile.load t config.mapLocation = .ok (some k.restored)) : Resumes config t k := by
  refine ⟨hload, ?_⟩
  rintro bytes isExempt host hsize hcount rfl
  refine ⟨_, start_eq_attached (check_resize hcheck hsize) hsize hload hcount.symm, ?_⟩
  rw [liveMap?_of_live? (live?_withMap _ _), Host.map_of_maps_eq_push (maps_withMap _ _)]

section Started

variable {config : Config} {isExempt : Path → Bool} {host : Host}
  (hstart : start config isExempt host = .ok s) (htracks : config.tracks = true)
  (hhome : MapFile.Home host.tree config.mapLocation)

include hstart htracks hhome

/-- What a tracker starts with is on disk, unless it is new and refused. -/
lemma backed_of_start :
    s.Backed (host.tree.contentsAt config.mapLocation) (s.snapshotOfStart? host.tree).toList := by
  obtain ⟨-, hstarted⟩ := started_of_start hstart
  have hcoherent := coherent_of_started hstarted
  have hdisk : OnDisk config.mapLocation (host.tree.contentsAt config.mapLocation) host.tree [] :=
    ⟨hhome, fun _ hk => (nomatch hk), fun _ => rfl⟩
  cases hstarted with
  | turnedOff hoff =>
    rw [htracks] at hoff
    cases hoff
  | unreadable _ hload =>
    rw [snapshotOfStart?, show (idle config isExempt host _).tracker.config = config from rfl, hload]
    exact ⟨hcoherent, hdisk, fun live hlive => by cases hlive⟩
  | @attached m _ hload hcount =>
    have hbacked := backed_withMap (s := idle config isExempt host .turnedOff) hdisk hload
    rw [snapshotOfStart?, config_withMap, show (idle config isExempt host _).tracker.config = config
      from rfl, hload]
    dsimp only
    rw [if_pos hcount, live?_withMap, Option.map_some, Option.toList_some,
      Host.map_of_maps_eq_push (maps_withMap _ _)]
    exact hbacked
  | @fresh saved m _ hload hcount hcreate =>
    have hbacked := backed_withNewMap (s := idle config isExempt host .turnedOff) hdisk
      (ChangeMap.valid_create hcreate)
    rw [List.append_nil] at hbacked
    have hsnapshot : ((idle config isExempt host .turnedOff).withNewMap m).snapshotOfStart? host.tree
        = ((idle config isExempt host .turnedOff).withNewMap m).snapshot? host.tree := by
      rw [snapshotOfStart?, config_withNewMap, show (idle config isExempt host _).tracker.config
        = config from rfl, hload]
      cases saved with
      | none => rfl
      | some old => exact if_neg (hcount old rfl)
    rw [hsnapshot]
    exact hbacked

/-- From the moment on that a tracker is active, a snapshot was taken. -/
lemma exists_taken {before after : List Action} (hrun : s.Undisturbed (before ++ after))
    (hactive : (s.run before).live? ≠ none) :
    ∃ latest, (s.snapshots (before ++ after) ++ (s.snapshotOfStart? host.tree).toList).head?
      = some latest := by
  have hbefore := (backed_of_start hstart htracks hhome).run (undisturbed_append.mp hrun).1
  obtain ⟨live, hlive⟩ := Option.ne_none_iff_exists'.mp hactive
  obtain ⟨-, latest, hlatest, -⟩ := hbefore.live live hlive
  rw [snapshots_append, List.append_assoc, List.head?_append, hlatest]
  cases ((s.run before).snapshots after).head? with
  | none => exact ⟨latest, rfl⟩
  | some later => exact ⟨later, rfl⟩

/-- What was marked on a map before a snapshot of it is read from the snapshot. -/
lemma le_read_restored {first rest : List Action} {a : Action}
    (hrun : s.Undisturbed (first ++ a :: rest)) {k : Snapshot}
    (hk : k ∈ ((s.run first).step a).snapshots rest) (hlive : (s.run first).live? = some k.id)
    (ha : a.Calm) {b : Block} {l : Lsn} (hmarks : (s.run first).Marks b l a) :
    l ≤ k.restored.read b := by
  have hfirst := (backed_of_start hstart htracks hhome).run (undisturbed_append.mp hrun).1
  have hvalid := (hfirst.live k.id hlive).1
  have hread := le_read_step hfirst.coherent hlive hvalid ha hmarks
  have hsize : k.id < ((s.run first).step a).host.maps.size :=
    (hfirst.coherent _ hlive).trans_le ((s.run first).leadsTo_step a).host.size
  exact hread.trans ((growsTo_of_takenLater (takenLater_run hk) hsize).read_le b)

end Started

/-- A new map is put where the map's path leads. -/
lemma replaceMap_of_writable {bytes : UInt64} {place : Place} (hlive : s.live? = none)
    (hplace : MapFile.Writable s.host.tree s.tracker.config.mapLocation m place)
    (hm : ChangeMap.create bytes (epochStart s.host.position none) = .ok m) :
    (s.replaceMap bytes).2.live? = some s.host.maps.size ∧
      (s.replaceMap bytes).2.host.tree = s.host.tree.put place (.file (.ofBytes m.toImage)) := by
  have hretired : s.retireLive = s := by rw [Tracking.retireLive, hlive]
  rcases s.replaceMap_cases bytes with ⟨hbad, -⟩ | ⟨-, m', hm', heq⟩
  · rw [ChangeMap.create_error hbad] at hm
    cases hm
  · have hnone : s.liveMap? = none := by rw [liveMap?, hlive, Option.map_none]
    rw [hnone] at hm'
    obtain rfl := Except.ok.inj (hm.symm.trans hm')
    rw [heq, hretired, live?_withNewMap, tree_withNewMap, Host.trySave_of_save hplace.save_eq]
    exact ⟨rfl, rfl⟩

/-- A tree in which a link to a directory is on the way of its own path. -/
def loopedTree : Tree where
  entries := [([.ofText "dir"], .directory true), ([.ofText "link"], .link "dir")]
  working := .root
  nodup := by decide

lemma writable_loopedTree (m : ChangeMap) :
    MapFile.Writable loopedTree ⟨"link/../link"⟩ m [⟨"link", by decide⟩] := by
  have hsite : MapFile.Site loopedTree ⟨"link/../link"⟩ [⟨"link", by decide⟩]
      [⟨".tmp000000", by decide⟩] :=
    ⟨by decide +kernel, by decide +kernel, ⟨"/link/../.tmp000000"⟩, by decide +kernel,
      by decide +kernel⟩
  exact hsite.writable m fun _ _ => rfl

/-- The link leads to a directory, which is no map. -/
lemma start_loopedTree :
    start ⟨⟨"d"⟩, 8, "v1", some ⟨"link/../link"⟩⟩ exemptNone ⟨loopedTree, ⟨100⟩, #[]⟩
      = .ok (idle ⟨⟨"d"⟩, 8, "v1", some ⟨"link/../link"⟩⟩ exemptNone ⟨loopedTree, ⟨100⟩, #[]⟩
        (.unreadable (.file .isADirectory))) := by
  have hdirectory : loopedTree.contentsAt ⟨"link/../link"⟩ = .error .isADirectory := by
    decide +kernel
  have hload : MapFile.load loopedTree ⟨"link/../link"⟩ = .error (.file .isADirectory) := by
    rw [MapFile.load, hdirectory]
  exact start_eq_unreadable rfl (by decide) hload

/-- Nothing can be written any more. -/
def fullTree : Tree :=
  { Tree.empty with
    refusal? := fun
      | .write _, _ => some .storageFull
      | _, _ => none }

end Tracking

end ChangeTracking
