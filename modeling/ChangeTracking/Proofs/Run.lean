import ChangeTracking.Proofs.Growth
import ChangeTracking.Tracker.Copy

/-!
# Runs of a tracker

A run is a list of actions: what is asked of the tracker (`mark`, `markDirectory`, `replaceMap`,
`checkpoint`, `stop`, `scan`) and what happens around it (`advance` of the log, `changeTree`).
`step` does one action and `run` all of them.

Two things hold of every step.  The maps of the host only grow and the settings stay
(`Tracking.LeadsTo`), and the live map is one that the host keeps (`Tracking.Coherent`).  A tracker
that was started is coherent.  Marking a directory is made of interruptions and marks, in passes, so
whatever these two keep is kept by the whole (`markDirectory_invariant`).
-/

namespace ChangeTracking

/-- What may be asked of a tracker, or happen around it. -/
inductive Action
  | mark (b : Block) (l : Lsn)
  /-- A directory is marked; `events` says what happens during each pass. -/
  | markDirectory (root : Walk.Root) (events : List (List Interruption))
  | replaceMap (bytes : UInt64)
  | checkpoint
  | stop
  /-- Somebody asks what changed since a baseline. -/
  | scan (baseline : Lsn)
  /-- The log is written up to a position. -/
  | advance (position : Lsn)
  /-- Somebody changes files. -/
  | changeTree (tree : Tree)

lemma le_epochStart (position : Lsn) (previous : Option ChangeMap) :
    position ≤ epochStart position previous := by
  unfold epochStart
  split
  · rw [Lsn.latest_eq_max]
    exact le_max_left _ _
  · exact le_rfl

lemma next_le_epochStart (position : Lsn) (old : ChangeMap) :
    old.epoch.next ≤ epochStart position (some old) := by
  rw [epochStart, Lsn.latest_eq_max]
  exact le_max_right _ _

namespace Tracking

/-- The tracker after an action.  A scan has a state of its own and leaves the tracker as it is. -/
def step (s : Tracking) : Action → Tracking
  | .mark b l => s.mark b l
  | .markDirectory root events => (s.markDirectory root events).2
  | .replaceMap bytes => (s.replaceMap bytes).2
  | .checkpoint => s.checkpoint.2
  | .stop => s.stop
  | .scan _ => s
  | .advance position => s.withHost { s.host with position := position }
  | .changeTree tree => s.withHost { s.host with tree := tree }

/-- The tracker after some actions. -/
def run (s : Tracking) (actions : List Action) : Tracking := actions.foldl step s

@[simp] lemma run_nil (s : Tracking) : s.run [] = s := rfl

@[simp] lemma run_cons (s : Tracking) (a : Action) (actions : List Action) :
    s.run (a :: actions) = (s.step a).run actions := rfl

lemma run_append (s : Tracking) (first second : List Action) :
    s.run (first ++ second) = (s.run first).run second := by
  simp [run, List.foldl_append]

/-! ## Parts of a tracker -/

@[simp] lemma live?_withHost (s : Tracking) (host : Host) : (s.withHost host).live? = s.live? := rfl

@[simp] lemma host_withHost (s : Tracking) (host : Host) : (s.withHost host).host = host := rfl

@[simp] lemma tracker_withHost (s : Tracking) (host : Host) :
    (s.withHost host).tracker = s.tracker := rfl

@[simp] lemma host_withMode (s : Tracking) (mode : Mode) : (s.withMode mode).host = s.host := rfl

@[simp] lemma config_withMode (s : Tracking) (mode : Mode) :
    (s.withMode mode).tracker.config = s.tracker.config := rfl

@[simp] lemma live?_withMode_active (s : Tracking) (live : MapId) :
    (s.withMode (.active live)).live? = some live := rfl

@[simp] lemma live?_withMode_idle (s : Tracking) (reason : IdleReason) :
    (s.withMode (.idle reason)).live? = none := rfl

@[simp] lemma live?_idle (config : Config) (isExempt : Path → Bool) (host : Host)
    (reason : IdleReason) : (idle config isExempt host reason).live? = none := rfl

lemma liveMap?_of_live? {s : Tracking} {live : MapId} (h : s.live? = some live) :
    s.liveMap? = some (s.host.map live) := by
  simp [liveMap?, h]

@[simp] lemma live?_withMap (s : Tracking) (m : ChangeMap) :
    (s.withMap m).live? = some s.host.maps.size := rfl

@[simp] lemma maps_withMap (s : Tracking) (m : ChangeMap) :
    (s.withMap m).host.maps = s.host.maps.push m := rfl

@[simp] lemma config_withMap (s : Tracking) (m : ChangeMap) :
    (s.withMap m).tracker.config = s.tracker.config := rfl

@[simp] lemma tree_withMap (s : Tracking) (m : ChangeMap) : (s.withMap m).host.tree = s.host.tree :=
  rfl

@[simp] lemma position_withMap (s : Tracking) (m : ChangeMap) :
    (s.withMap m).host.position = s.host.position := rfl

@[simp] lemma live?_withNewMap (s : Tracking) (m : ChangeMap) :
    (s.withNewMap m).live? = some s.host.maps.size := by
  simp [withNewMap]

@[simp] lemma maps_withNewMap (s : Tracking) (m : ChangeMap) :
    (s.withNewMap m).host.maps = s.host.maps.push m := by
  simp [withNewMap]

@[simp] lemma config_withNewMap (s : Tracking) (m : ChangeMap) :
    (s.withNewMap m).tracker.config = s.tracker.config := by
  simp [withNewMap]

@[simp] lemma tree_withNewMap (s : Tracking) (m : ChangeMap) :
    (s.withNewMap m).host.tree = (s.host.trySave s.tracker.config.mapLocation m).tree := by
  simp [withNewMap]

@[simp] lemma position_withNewMap (s : Tracking) (m : ChangeMap) :
    (s.withNewMap m).host.position = s.host.position := by
  simp [withNewMap]

/-! ## What each operation does -/

/-- The same tracker after its live map, if it has one, was retired. -/
def retireLive (s : Tracking) : Tracking :=
  match s.live? with
  | some live => s.withHost (s.host.updateMap live .retire)
  | none => s

@[simp] lemma live?_retireLive (s : Tracking) : s.retireLive.live? = s.live? := by
  unfold retireLive
  split <;> rfl

@[simp] lemma tracker_retireLive (s : Tracking) : s.retireLive.tracker = s.tracker := by
  unfold retireLive
  split <;> rfl

@[simp] lemma tree_retireLive (s : Tracking) : s.retireLive.host.tree = s.host.tree := by
  unfold retireLive
  split <;> rfl

@[simp] lemma position_retireLive (s : Tracking) :
    s.retireLive.host.position = s.host.position := by
  unfold retireLive
  split <;> rfl

@[simp] lemma size_retireLive (s : Tracking) :
    s.retireLive.host.maps.size = s.host.maps.size := by
  unfold retireLive
  split <;> simp

lemma epoch_retireLive (s : Tracking) (id : MapId) :
    (s.retireLive.host.map id).epoch = (s.host.map id).epoch := by
  unfold retireLive
  split
  · rw [host_withHost, Host.map_updateMap]
    split <;> rfl
  · rfl

lemma growsTo_retireLive (s : Tracking) : s.host.GrowsTo s.retireLive.host := by
  unfold retireLive
  split
  · exact s.host.growsTo_updateMap _ ChangeMap.growsTo_retire
  · exact .refl _

/-- A replacement is refused for the size, or retires the live map and goes on with a new one. -/
lemma replaceMap_cases (s : Tracking) (bytes : UInt64) :
    (¬ GoodMapSize bytes ∧ s.replaceMap bytes = (.error (.invalidMapSize bytes), s)) ∨
      (GoodMapSize bytes ∧
        ∃ m, ChangeMap.create bytes (epochStart s.host.position s.liveMap?) = .ok m ∧
          s.replaceMap bytes = (.ok m.epoch, s.retireLive.withNewMap m)) := by
  by_cases hsize : GoodMapSize bytes
  · obtain ⟨m, hm⟩ := ChangeMap.exists_create hsize (epochStart s.host.position s.liveMap?)
    refine .inr ⟨hsize, m, hm, ?_⟩
    simp only [replaceMap, hm, retireLive]
    cases s.live? <;> rfl
  · exact .inl ⟨hsize, by simp only [replaceMap, ChangeMap.create_error hsize]⟩

/-- A checkpoint changes at most the tree, and if it fails nothing. -/
lemma checkpoint_cases (s : Tracking) :
    (s.live? = none ∧ s.checkpoint = (.ok (), s)) ∨
      ∃ live, s.live? = some live ∧
        ((∃ e, MapFile.save s.host.tree s.tracker.config.mapLocation (s.host.map live) = .error e ∧
            s.checkpoint = (.error (.file e), s)) ∨
          ∃ tree,
            MapFile.save s.host.tree s.tracker.config.mapLocation (s.host.map live) = .ok tree ∧
            s.checkpoint = (.ok (), s.withHost { s.host with tree := tree })) := by
  cases hlive : s.live? with
  | none => exact .inl ⟨rfl, by simp [checkpoint, liveMap?, hlive]⟩
  | some live =>
    refine .inr ⟨live, rfl, ?_⟩
    cases hsave : MapFile.save s.host.tree s.tracker.config.mapLocation (s.host.map live) with
    | error e => exact .inl ⟨e, rfl, by simp [checkpoint, liveMap?, hlive, hsave]⟩
    | ok tree => exact .inr ⟨tree, rfl, by simp [checkpoint, liveMap?, hlive, hsave]⟩

@[simp] lemma live?_checkpoint (s : Tracking) : s.checkpoint.2.live? = s.live? := by
  rcases s.checkpoint_cases with ⟨-, h⟩ | ⟨_, -, ⟨_, -, h⟩ | ⟨_, -, h⟩⟩ <;> simp [h]

@[simp] lemma tracker_checkpoint (s : Tracking) : s.checkpoint.2.tracker = s.tracker := by
  rcases s.checkpoint_cases with ⟨-, h⟩ | ⟨_, -, ⟨_, -, h⟩ | ⟨_, -, h⟩⟩ <;> simp [h]

@[simp] lemma maps_checkpoint (s : Tracking) : s.checkpoint.2.host.maps = s.host.maps := by
  rcases s.checkpoint_cases with ⟨-, h⟩ | ⟨_, -, ⟨_, -, h⟩ | ⟨_, -, h⟩⟩ <;> simp [h]

@[simp] lemma position_checkpoint (s : Tracking) :
    s.checkpoint.2.host.position = s.host.position := by
  rcases s.checkpoint_cases with ⟨-, h⟩ | ⟨_, -, ⟨_, -, h⟩ | ⟨_, -, h⟩⟩ <;> simp [h]

lemma stop_eq (s : Tracking) : s.stop = s.checkpoint.2.retireLive.withMode (.idle .stopped) := by
  simp only [stop, retireLive]
  cases s.checkpoint.2.live? <;> rfl

lemma mark_eq {s : Tracking} {live : MapId} (h : s.live? = some live) (b : Block) (l : Lsn) :
    s.mark b l = s.withHost (s.host.updateMap live (·.markAll [(b, l)])) := by
  simp only [mark, h, ChangeMap.mark_eq_markAll]

lemma mark_eq_self {s : Tracking} (h : s.live? = none) (b : Block) (l : Lsn) : s.mark b l = s := by
  simp only [mark, h]

/-! ## Marking a directory -/

/-- The marks of a pass that is not interrupted any more. -/
def passMarks (s : Tracking) (live : MapId) (root : Walk.Root) : List (Block × Lsn) :=
  ChangeMap.segmentMarks (s.host.position.latest (s.host.map live).epoch)
    (root.listing s.host.tree s.tracker.config.versionDirectory)

/-- A pass lets happen what may happen, and then it marks. -/
lemma markPass_eq (s : Tracking) (live : MapId) (root : Walk.Root) (events : List Interruption) :
    s.markPass live root events =
      (.ofSegments (root.listing (events.foldl interrupt s).host.tree
          (events.foldl interrupt s).tracker.config.versionDirectory),
        (events.foldl interrupt s).withHost ((events.foldl interrupt s).host.updateMap live
          (·.markAll ((events.foldl interrupt s).passMarks live root)))) := by
  simp only [markPass, passMarks, ChangeMap.markSegments_eq_markAll]

/-- What every pass keeps is kept by all passes together.  The pass after the last event is not
interrupted. -/
lemma markPasses_induction {P : Tracking → Prop} {root : Walk.Root}
    {events : List (List Interruption)}
    (hpass : ∀ s live now, now = [] ∨ now ∈ events → s.live? = some live → P s →
      P (s.markPass live root now).2)
    {s : Tracking} (hs : P s) : P (s.markPasses root events).2 := by
  induction events generalizing s with
  | nil =>
    rw [markPasses]
    split
    · exact hs
    · next live hlive =>
      have hthen := hpass s live [] (.inl rfl) hlive hs
      dsimp only
      split <;> exact hthen
  | cons now later ih =>
    rw [markPasses]
    split
    · exact hs
    · next live hlive =>
      have hthen := hpass s live now (.inr List.mem_cons_self) hlive hs
      dsimp only
      split
      · exact hthen
      · refine ih (fun s live now' hnow => hpass s live now' ?_) hthen
        exact hnow.imp_right (List.mem_cons_of_mem now)

section Passes

variable {P : Tracking → Prop} (hinterrupt : ∀ s e, P s → P (s.interrupt e))
  (hmark : ∀ s live marks, P s → P (s.withHost (s.host.updateMap live (·.markAll marks))))

include hinterrupt

lemma interrupts_invariant {s : Tracking} (hs : P s) (events : List Interruption) :
    P (events.foldl interrupt s) := by
  induction events generalizing s with
  | nil => exact hs
  | cons e rest ih => exact ih (hinterrupt s e hs)

include hmark

lemma markPass_invariant {s : Tracking} (hs : P s) (live : MapId) (root : Walk.Root)
    (events : List Interruption) : P (s.markPass live root events).2 := by
  rw [markPass_eq]
  exact hmark _ _ _ (interrupts_invariant hinterrupt hs events)

/-- What interruptions and marks keep is kept while a directory is marked. -/
lemma markDirectory_invariant {s : Tracking} (hs : P s) (root : Walk.Root)
    (events : List (List Interruption)) : P (s.markDirectory root events).2 := by
  unfold markDirectory
  split
  · exact hs
  · apply markPasses_induction (P := P) _ hs
    intro s live now _ _ hs
    exact markPass_invariant hinterrupt hmark hs live root now

end Passes

/-! ## What all steps keep -/

/-- The live map is one that the host keeps. -/
def Coherent (s : Tracking) : Prop := ∀ live, s.live? = some live → live < s.host.maps.size

/-- `s'` is what may have become of `s`. -/
structure LeadsTo (s s' : Tracking) : Prop where
  config : s'.tracker.config = s.tracker.config
  host : s.host.GrowsTo s'.host
  coherent : s.Coherent → s'.Coherent

namespace LeadsTo

@[refl] lemma refl (s : Tracking) : s.LeadsTo s := ⟨rfl, .refl _, id⟩

lemma trans {s₁ s₂ s₃ : Tracking} (h : s₁.LeadsTo s₂) (h' : s₂.LeadsTo s₃) : s₁.LeadsTo s₃ where
  config := h'.config.trans h.config
  host := h.host.trans h'.host
  coherent := h'.coherent ∘ h.coherent

end LeadsTo

lemma leadsTo_withHost {s : Tracking} {host : Host} (h : s.host.GrowsTo host) :
    s.LeadsTo (s.withHost host) where
  config := rfl
  host := h
  coherent hs live hlive := (hs live hlive).trans_le h.size

lemma leadsTo_withNewMap (s : Tracking) (m : ChangeMap) : s.LeadsTo (s.withNewMap m) where
  config := s.config_withNewMap m
  host := Host.growsTo_push (s.maps_withNewMap m)
  coherent _ live hlive := by
    simp only [live?_withNewMap, Option.some.injEq] at hlive
    simp [← hlive]

lemma leadsTo_retireLive (s : Tracking) : s.LeadsTo s.retireLive where
  config := by simp
  host := s.growsTo_retireLive
  coherent hs live hlive := by
    rw [live?_retireLive] at hlive
    simpa using hs live hlive

lemma leadsTo_markAll (s : Tracking) (id : MapId) (marks : List (Block × Lsn)) :
    s.LeadsTo (s.withHost (s.host.updateMap id (·.markAll marks))) :=
  leadsTo_withHost (s.host.growsTo_updateMap id fun m => m.growsTo_markAll marks)

lemma leadsTo_mark (s : Tracking) (b : Block) (l : Lsn) : s.LeadsTo (s.mark b l) := by
  cases hlive : s.live? with
  | none =>
    rw [mark_eq_self hlive]
  | some live =>
    rw [mark_eq hlive]
    exact s.leadsTo_markAll live _

lemma leadsTo_replaceMap (s : Tracking) (bytes : UInt64) : s.LeadsTo (s.replaceMap bytes).2 := by
  rcases s.replaceMap_cases bytes with ⟨-, h⟩ | ⟨-, m, -, h⟩
  · rw [h]
  · rw [h]
    exact s.leadsTo_retireLive.trans (s.retireLive.leadsTo_withNewMap m)

lemma leadsTo_checkpoint (s : Tracking) : s.LeadsTo s.checkpoint.2 where
  config := by simp
  host := .of_maps_eq s.maps_checkpoint
  coherent hs live hlive := by
    rw [live?_checkpoint] at hlive
    rw [maps_checkpoint]
    exact hs live hlive

lemma leadsTo_stop (s : Tracking) : s.LeadsTo s.stop := by
  have hretired := s.leadsTo_checkpoint.trans s.checkpoint.2.leadsTo_retireLive
  rw [stop_eq]
  exact ⟨hretired.config, hretired.host, fun _ live hlive => by simp at hlive⟩

lemma leadsTo_interrupt (s : Tracking) (e : Interruption) : s.LeadsTo (s.interrupt e) := by
  cases e with
  | replaceMap bytes => exact s.leadsTo_replaceMap bytes
  | stop => exact s.leadsTo_stop

lemma leadsTo_interrupts (s : Tracking) (events : List Interruption) :
    s.LeadsTo (events.foldl interrupt s) :=
  interrupts_invariant (P := s.LeadsTo) (fun s' e h => h.trans (s'.leadsTo_interrupt e)) (.refl s)
    events

lemma leadsTo_markPass (s : Tracking) (live : MapId) (root : Walk.Root)
    (events : List Interruption) : s.LeadsTo (s.markPass live root events).2 :=
  markPass_invariant (P := s.LeadsTo) (fun s' e h => h.trans (s'.leadsTo_interrupt e))
    (fun s' live marks h => h.trans (s'.leadsTo_markAll live marks)) (.refl s) live root events

lemma leadsTo_markDirectory (s : Tracking) (root : Walk.Root) (events : List (List Interruption)) :
    s.LeadsTo (s.markDirectory root events).2 :=
  markDirectory_invariant (P := s.LeadsTo) (fun s' e h => h.trans (s'.leadsTo_interrupt e))
    (fun s' live marks h => h.trans (s'.leadsTo_markAll live marks)) (.refl s) root events

lemma leadsTo_step (s : Tracking) (a : Action) : s.LeadsTo (s.step a) := by
  cases a with
  | mark b l => exact s.leadsTo_mark b l
  | markDirectory root events => exact s.leadsTo_markDirectory root events
  | replaceMap bytes => exact s.leadsTo_replaceMap bytes
  | checkpoint => exact s.leadsTo_checkpoint
  | stop => exact s.leadsTo_stop
  | scan baseline => exact .refl s
  | advance position => exact leadsTo_withHost (.of_maps_eq rfl)
  | changeTree tree => exact leadsTo_withHost (.of_maps_eq rfl)

lemma leadsTo_run (s : Tracking) (actions : List Action) : s.LeadsTo (s.run actions) := by
  induction actions generalizing s with
  | nil => exact .refl s
  | cons a rest ih => exact (s.leadsTo_step a).trans (ih _)

/-! ## Starting -/

/-- The ways in which a tracker can begin. -/
inductive Started (config : Config) (isExempt : Path → Bool) (host : Host) : Tracking → Prop
  | turnedOff (htracks : config.tracks = false) :
      Started config isExempt host
        (idle config isExempt (host.tryDelete config.mapLocation) .turnedOff)
  | unreadable {cause : Error} (htracks : config.tracks = true)
      (hload : MapFile.load host.tree config.mapLocation = .error cause) :
      Started config isExempt host (idle config isExempt host (.unreadable cause))
  | attached {m : ChangeMap} (htracks : config.tracks = true)
      (hload : MapFile.load host.tree config.mapLocation = .ok (some m))
      (hcount : m.slotCount = config.mapSize.toNat / slotBytes) :
      Started config isExempt host ((idle config isExempt host .turnedOff).withMap m)
  | fresh {saved : Option ChangeMap} {m : ChangeMap} (htracks : config.tracks = true)
      (hload : MapFile.load host.tree config.mapLocation = .ok saved)
      (hcount : ∀ old, saved = some old → old.slotCount ≠ config.mapSize.toNat / slotBytes)
      (hcreate : ChangeMap.create config.mapSize (epochStart host.position saved) = .ok m) :
      Started config isExempt host ((idle config isExempt host .turnedOff).withNewMap m)

lemma slotsFor_eq_ok {bytes : UInt64} (h : GoodMapSize bytes) :
    slotsFor bytes = .ok (bytes.toNat / slotBytes) := by
  rw [slotsFor, if_pos h]

lemma started_of_start {config : Config} {isExempt : Path → Bool} {host : Host} {s : Tracking}
    (h : start config isExempt host = .ok s) :
    config.check = .ok () ∧ Started config isExempt host s := by
  unfold start at h
  cases hcheck : config.check with
  | error e => simp [hcheck, bind, Except.bind] at h
  | ok _ =>
    refine ⟨rfl, ?_⟩
    cases htracks : config.tracks with
    | false =>
      simp only [hcheck, htracks, bind, Except.bind, pure, Except.pure] at h
      cases h
      exact .turnedOff htracks
    | true =>
      have hsize : GoodMapSize config.mapSize := by
        by_contra hbad
        simp [hcheck, htracks, slotsFor, hbad, bind, Except.bind] at h
      cases hload : MapFile.load host.tree config.mapLocation with
      | error cause =>
        simp only [hcheck, htracks, slotsFor_eq_ok hsize, hload, bind, Except.bind, pure,
          Except.pure, if_true] at h
        cases h
        exact .unreadable htracks hload
      | ok saved =>
        simp only [hcheck, htracks, slotsFor_eq_ok hsize, hload, bind, Except.bind, pure,
          Except.pure, if_true] at h
        cases hsaved : saved.filter (·.slotCount = config.mapSize.toNat / slotBytes) with
        | some m =>
          simp only [hsaved] at h
          cases h
          obtain ⟨rfl, hcount⟩ := Option.filter_eq_some_iff.mp hsaved
          exact .attached htracks hload (of_decide_eq_true hcount)
        | none =>
          obtain ⟨m, hm⟩ := ChangeMap.exists_create hsize (epochStart host.position saved)
          simp only [hsaved, hm] at h
          cases h
          refine .fresh htracks hload ?_ hm
          rintro old rfl hcount
          simp [hcount] at hsaved

lemma tracks_of_goodMapSize {config : Config} (hsize : GoodMapSize config.mapSize) :
    config.tracks = true := by
  have hpos : config.mapSize ≠ 0 := by
    intro hzero
    rw [hzero] at hsize
    exact absurd hsize.1 (by decide)
  simpa [Config.tracks] using hpos

lemma start_eq_attached {config : Config} {isExempt : Path → Bool} {host : Host} {m : ChangeMap}
    (hcheck : config.check = .ok ()) (hsize : GoodMapSize config.mapSize)
    (hload : MapFile.load host.tree config.mapLocation = .ok (some m))
    (hcount : m.slotCount = config.mapSize.toNat / slotBytes) :
    start config isExempt host = .ok ((idle config isExempt host .turnedOff).withMap m) := by
  have hsaved :
      (some m).filter (·.slotCount = config.mapSize.toNat / slotBytes) = some m :=
    Option.filter_eq_some_iff.mpr ⟨rfl, decide_eq_true hcount⟩
  simp [start, hcheck, tracks_of_goodMapSize hsize, slotsFor_eq_ok hsize, hload, hsaved, bind,
    Except.bind, pure, Except.pure]

lemma start_eq_fresh {config : Config} {isExempt : Path → Bool} {host : Host} {m : ChangeMap}
    (hcheck : config.check = .ok ()) (hsize : GoodMapSize config.mapSize)
    (hload : MapFile.load host.tree config.mapLocation = .ok none)
    (hcreate : ChangeMap.create config.mapSize (epochStart host.position none) = .ok m) :
    start config isExempt host = .ok ((idle config isExempt host .turnedOff).withNewMap m) := by
  simp [start, hcheck, tracks_of_goodMapSize hsize, slotsFor_eq_ok hsize, hload, hcreate, bind,
    Except.bind, pure, Except.pure]

lemma start_eq_unreadable {config : Config} {isExempt : Path → Bool} {host : Host} {cause : Error}
    (hcheck : config.check = .ok ()) (hsize : GoodMapSize config.mapSize)
    (hload : MapFile.load host.tree config.mapLocation = .error cause) :
    start config isExempt host = .ok (idle config isExempt host (.unreadable cause)) := by
  simp [start, hcheck, tracks_of_goodMapSize hsize, slotsFor_eq_ok hsize, hload, bind, Except.bind,
    pure, Except.pure]

lemma coherent_of_started {config : Config} {isExempt : Path → Bool} {host : Host} {s : Tracking}
    (h : Started config isExempt host s) : s.Coherent := by
  intro live hlive
  cases h with
  | turnedOff => simp at hlive
  | unreadable => simp at hlive
  | attached =>
    simp only [live?_withMap, Option.some.injEq] at hlive
    simp [← hlive]
  | fresh =>
    simp only [live?_withNewMap, Option.some.injEq] at hlive
    simp [← hlive]

lemma config_of_started {config : Config} {isExempt : Path → Bool} {host : Host} {s : Tracking}
    (h : Started config isExempt host s) : s.tracker.config = config := by
  cases h with
  | turnedOff => rfl
  | unreadable => rfl
  | attached => rfl
  | fresh => rw [config_withNewMap]; rfl

section Started

variable {config : Config} {isExempt : Path → Bool} {host : Host} {started s : Tracking}
  (hstart : start config isExempt host = .ok started)

include hstart

lemma coherent_of_leadsTo (hs : started.LeadsTo s) : s.Coherent :=
  hs.coherent (coherent_of_started (started_of_start hstart).2)

lemma config_of_leadsTo (hs : started.LeadsTo s) : s.tracker.config = config :=
  hs.config.trans (config_of_started (started_of_start hstart).2)

end Started

end Tracking

end ChangeTracking
