import ChangeTracking.Proofs.Run

/-!
# Covered baselines

A new map has seen nothing of what was marked on the maps before it.  Its epoch starts at the log's
position or later, so everything marked before was marked at that position or earlier, and a
baseline that `covers` accepts is at the start of the live map's epoch or after it.  So of what was
marked at a covered baseline or after it, the live map can have forgotten only what was marked
exactly at the baseline, exactly where its epoch starts.

That remaining case happens.  A map that is replaced at the position at which a block was just
marked makes way for one whose epoch starts at that very position, which then covers it.
`covers_spec` states both, for all runs during which the log leads (`LogLeads`).
-/

namespace ChangeTracking

namespace Tracking

/-- Whether an action keeps to the log: the log does not go back, and what is marked has been
logged. -/
def KeepsToLog (s : Tracking) : Action → Prop
  | .mark _ l => s.live? ≠ none → l ≤ s.host.position
  | .advance position => s.host.position ≤ position
  | _ => True

/-- All of the actions keep to the log. -/
def LogLeads (s : Tracking) : List Action → Prop
  | [] => True
  | a :: rest => s.KeepsToLog a ∧ (s.step a).LogLeads rest

instance (s : Tracking) : (a : Action) → Decidable (s.KeepsToLog a)
  | .mark _ l => inferInstanceAs (Decidable (s.live? ≠ none → l ≤ s.host.position))
  | .advance position => inferInstanceAs (Decidable (s.host.position ≤ position))
  | .markDirectory .. | .replaceMap _ | .checkpoint | .stop | .scan _ | .changeTree _ =>
    .isTrue trivial

instance decidableLogLeads :
    (s : Tracking) → (actions : List Action) → Decidable (s.LogLeads actions)
  | _, [] => .isTrue trivial
  | s, a :: rest =>
    have := decidableLogLeads (s.step a) rest
    inferInstanceAs (Decidable (s.KeepsToLog a ∧ (s.step a).LogLeads rest))

lemma logLeads_append {s : Tracking} {first second : List Action} :
    s.LogLeads (first ++ second) ↔ s.LogLeads first ∧ (s.run first).LogLeads second := by
  induction first generalizing s with
  | nil => simp [LogLeads]
  | cons a rest ih => simp [LogLeads, ih, and_assoc]

/-- A block was marked at `l` on the map of number `id`, and the maps that were live after it have
begun at `l` or later. -/
structure Remembers (id : MapId) (b : Block) (l : Lsn) (s : Tracking) : Prop where
  coherent : s.Coherent
  kept : id < s.host.maps.size
  logged : l ≤ s.host.position
  read : l ≤ (s.host.map id).read b
  later : ∀ live, s.live? = some live → live ≠ id → l ≤ (s.host.map live).epoch

section Steps

variable {id : MapId} {b : Block} {l : Lsn} {s s' : Tracking}

lemma remembers_mark (hs : s.Coherent) (hlive : s.live? = some id) (hl : l ≤ s.host.position) :
    (s.mark b l).Remembers id b l where
  coherent := (s.leadsTo_mark b l).coherent hs
  kept := (hs id hlive).trans_le (s.leadsTo_mark b l).host.size
  logged := by
    rw [mark_eq hlive]
    exact hl
  read := by
    rw [mark_eq hlive, host_withHost, Host.map_updateMap_self (hs id hlive)]
    exact ChangeMap.le_read_markAll (by simp)
  later live hlive' hne := by
    rw [mark_eq hlive, live?_withHost, hlive] at hlive'
    exact absurd (Option.some.inj hlive').symm hne

/-- What leaves the live map in place does not make anything forgotten. -/
lemma Remembers.of_leadsTo (h : s.Remembers id b l) (hl : l.known = true) (hs : s.LeadsTo s')
    (hlive : ∀ live, s'.live? = some live → s.live? = some live)
    (hposition : s.host.position ≤ s'.host.position) : s'.Remembers id b l where
  coherent := hs.coherent h.coherent
  kept := h.kept.trans_le hs.host.size
  logged := h.logged.trans hposition
  read := h.read.trans ((hs.host.map id h.kept).read_le b)
  later live hlive' hne := by
    have hbefore := h.later live (hlive live hlive') hne
    have hknown : (s.host.map live).epoch ≠ Lsn.never := by
      intro hnever
      rw [hnever, Lsn.le_never_iff] at hbefore
      exact Lsn.known_iff.mp hl hbefore
    rw [(hs.host.map live (h.coherent live (hlive live hlive'))).epoch hknown]
    exact hbefore

lemma Remembers.withNewMap (h : s.Remembers id b l) {m : ChangeMap} (hm : l ≤ m.epoch) :
    (s.withNewMap m).Remembers id b l where
  coherent := (s.leadsTo_withNewMap m).coherent h.coherent
  kept := h.kept.trans_le (s.leadsTo_withNewMap m).host.size
  logged := by
    rw [position_withNewMap]
    exact h.logged
  read := h.read.trans (((s.leadsTo_withNewMap m).host.map id h.kept).read_le b)
  later live hlive _ := by
    rw [live?_withNewMap, Option.some.injEq] at hlive
    rw [← hlive, Host.map_of_maps_eq_push (s.maps_withNewMap m)]
    exact hm

lemma Remembers.replaceMap (h : s.Remembers id b l) (hl : l.known = true) (bytes : UInt64) :
    (s.replaceMap bytes).2.Remembers id b l := by
  rcases s.replaceMap_cases bytes with ⟨-, heq⟩ | ⟨-, m, hm, heq⟩
  · rw [heq]
    exact h
  · rw [heq]
    have hretired : s.retireLive.Remembers id b l :=
      h.of_leadsTo hl s.leadsTo_retireLive (fun live => by rw [live?_retireLive]; exact fun h => h)
        (by rw [position_retireLive])
    apply hretired.withNewMap
    rw [ChangeMap.epoch_create hm]
    exact h.logged.trans (le_epochStart _ _)

lemma Remembers.stop (h : s.Remembers id b l) (hl : l.known = true) :
    s.stop.Remembers id b l :=
  h.of_leadsTo hl s.leadsTo_stop (fun live hlive => by simp [stop_eq] at hlive) (by simp [stop_eq])

lemma Remembers.checkpoint (h : s.Remembers id b l) (hl : l.known = true) :
    s.checkpoint.2.Remembers id b l :=
  h.of_leadsTo hl s.leadsTo_checkpoint (fun live => by rw [live?_checkpoint]; exact fun h => h)
    (by rw [position_checkpoint])

lemma Remembers.markAll (h : s.Remembers id b l) (hl : l.known = true) (live : MapId)
    (marks : List (Block × Lsn)) :
    (s.withHost (s.host.updateMap live (·.markAll marks))).Remembers id b l :=
  h.of_leadsTo hl (s.leadsTo_markAll live marks) (fun _ hlive => hlive) le_rfl

/-- Nothing is forgotten by any step, as long as the log does not go back. -/
lemma Remembers.step (h : s.Remembers id b l) (hl : l.known = true) {a : Action}
    (ha : s.KeepsToLog a) : (s.step a).Remembers id b l := by
  cases a with
  | mark c l' =>
    cases hlive : s.live? with
    | none => simpa only [Tracking.step, mark_eq_self hlive] using h
    | some live => simpa only [Tracking.step, mark_eq hlive] using h.markAll hl live _
  | markDirectory root events =>
    refine markDirectory_invariant (P := Remembers id b l) ?_ ?_ h root events
    · intro s' e hs'
      cases e with
      | replaceMap bytes => exact hs'.replaceMap hl bytes
      | stop => exact hs'.stop hl
    · exact fun _ live marks hs' => hs'.markAll hl live marks
  | replaceMap bytes => exact h.replaceMap hl bytes
  | checkpoint => exact h.checkpoint hl
  | stop => exact h.stop hl
  | scan baseline => exact h
  | advance position =>
    exact h.of_leadsTo hl (leadsTo_withHost (.of_maps_eq rfl)) (fun _ hlive => hlive) ha
  | changeTree tree =>
    exact h.of_leadsTo hl (leadsTo_withHost (.of_maps_eq rfl)) (fun _ hlive => hlive) le_rfl

lemma Remembers.run (h : s.Remembers id b l) (hl : l.known = true) {actions : List Action}
    (hlog : s.LogLeads actions) : (s.run actions).Remembers id b l := by
  induction actions generalizing s with
  | nil => exact h
  | cons a rest ih => exact ih (h.step hl hlog.1) hlog.2

end Steps

lemma covers_iff {s : Tracking} {baseline : Lsn} :
    s.covers baseline = true ↔
      ∃ live, s.live? = some live ∧ (s.host.map live).epoch ≤ baseline := by
  cases hlive : s.live? with
  | none => simp [covers, liveMap?, hlive]
  | some live => simp [covers, liveMap?, hlive]

/-- What was marked at or after a covered baseline is still read at or after it, but for what was
marked exactly where the epoch of a later map starts. -/
lemma le_read_of_covers {s : Tracking} {before after : List Action} {id : MapId} {b : Block}
    {l baseline : Lsn} (hs : s.Coherent) (hlog : s.LogLeads (before ++ .mark b l :: after))
    (hid : (s.run before).live? = some id) (hl : l.known = true) (hle : baseline ≤ l)
    {live : MapId} (hlive : (s.run (before ++ .mark b l :: after)).live? = some live)
    (hcovers : ((s.run (before ++ .mark b l :: after)).host.map live).epoch ≤ baseline) :
    baseline ≤ ((s.run (before ++ .mark b l :: after)).host.map live).read b ∨
      (live ≠ id ∧ l = baseline ∧
        ((s.run (before ++ .mark b l :: after)).host.map live).epoch = baseline) := by
  obtain ⟨-, hmark, hafter⟩ := logLeads_append.mp hlog
  have hlogged : l ≤ (s.run before).host.position := hmark (by simp [hid])
  have hcoherent := (s.leadsTo_run before).coherent hs
  have hend := (remembers_mark hcoherent hid hlogged).run hl hafter
  rw [run_append, run_cons] at *
  by_cases hsame : live = id
  · left
    subst hsame
    exact hle.trans hend.read
  · right
    have hepoch := hend.later live hlive hsame
    have hbaseline : l = baseline := le_antisymm (hepoch.trans hcovers) hle
    exact ⟨hsame, hbaseline, le_antisymm hcovers (hbaseline ▸ hepoch)⟩

/-- A map that is replaced where a block was just marked makes way for one that covers the mark and
does not have it. -/
lemma covers_replaced {s : Tracking} {live : MapId} {bytes : UInt64} (hs : s.Coherent)
    (hlive : s.live? = some live) (hknown : (s.host.map live).epoch.known = true)
    (hepoch : (s.host.map live).epoch < s.host.position) (hsize : GoodMapSize bytes) (b : Block) :
    ∃ m, (s.run [.mark b s.host.position, .replaceMap bytes]).liveMap? = some m ∧
      m.epoch = s.host.position ∧ m.read b = Lsn.never := by
  set marked := s.mark b s.host.position with hmarked
  have hmap : marked.host.map live = (s.host.map live).mark b s.host.position := by
    rw [hmarked, mark_eq hlive, host_withHost, Host.map_updateMap_self (hs live hlive),
      ChangeMap.mark_eq_markAll]
  have hsameepoch : (marked.host.map live).epoch = (s.host.map live).epoch := by
    rw [hmap, ChangeMap.epoch_mark, if_neg (Lsn.known_iff.mp hknown)]
  have hsamelive : marked.live? = some live := by rw [hmarked, mark_eq hlive, live?_withHost, hlive]
  have hposition : marked.host.position = s.host.position := by
    rw [hmarked, mark_eq hlive, host_withHost, Host.position_updateMap]
  rcases marked.replaceMap_cases bytes with ⟨hbad, -⟩ | ⟨-, m, hm, heq⟩
  · exact absurd hsize hbad
  · refine ⟨m, ?_, ?_, ?_⟩
    · change (marked.replaceMap bytes).2.liveMap? = some m
      rw [heq, liveMap?_of_live? (live?_withNewMap _ m),
        Host.map_of_maps_eq_push (maps_withNewMap _ m)]
    · rw [ChangeMap.epoch_create hm, liveMap?_of_live? hsamelive, epochStart, hposition, hsameepoch,
        Lsn.latest_eq_max, max_eq_left (Lsn.next_le_of_lt hepoch)]
    · rw [ChangeMap.read_eq_slot, ChangeMap.slot_create hm]

/-- **Covered baselines lose nothing, but where an epoch starts.**  After a run during which the log
leads, every mark at or after a covered baseline is still read at or after it, unless it was made on
a map that was replaced since, exactly at the baseline, and the epoch of the live map starts exactly
there.  And there it can be lost: a mark at the log's position is, if the map is replaced right
after it. -/
theorem covers_spec {config : Config} {isExempt : Path → Bool} {host : Host} {s : Tracking}
    (hstart : start config isExempt host = .ok s) {actions : List Action}
    (hlog : s.LogLeads actions) :
    (∀ baseline, (s.run actions).covers baseline = true →
      ∃ live, (s.run actions).live? = some live ∧
        ∀ before b l after id, actions = before ++ .mark b l :: after →
          (s.run before).live? = some id → l.known = true → baseline ≤ l →
          baseline ≤ ((s.run actions).host.map live).read b ∨
            (live ≠ id ∧ l = baseline ∧ ((s.run actions).host.map live).epoch = baseline)) ∧
    (∀ live b bytes, (s.run actions).live? = some live →
      ((s.run actions).host.map live).epoch.known = true →
      ((s.run actions).host.map live).epoch < (s.run actions).host.position → GoodMapSize bytes →
      ∃ m, ((s.run actions).run
          [.mark b (s.run actions).host.position, .replaceMap bytes]).liveMap? = some m ∧
        m.epoch = (s.run actions).host.position ∧ m.read b = Lsn.never) := by
  have hs := coherent_of_started (started_of_start hstart).2
  constructor
  · intro baseline hcovers
    obtain ⟨live, hlive, hepoch⟩ := covers_iff.mp hcovers
    refine ⟨live, hlive, ?_⟩
    rintro before b l after id rfl hid hl hle
    exact le_read_of_covers hs hlog hid hl hle hlive hepoch
  · intro live b bytes hlive hknown hepoch hsize
    exact covers_replaced ((s.leadsTo_run actions).coherent hs) hlive hknown hepoch hsize b

/-- What is marked on a new map is read at a baseline that the new epoch covers. -/
theorem covers_spec_new_epoch :
    let b : Block := ⟨⟨1663, 5, 16384⟩, .main, 3⟩
    let actions : List Action :=
      [.mark b ⟨60⟩, .advance ⟨120⟩, .replaceMap 16, .mark b ⟨120⟩]
    ∃ s, start ⟨⟨"data"⟩, 8, "v1", none⟩ exemptNone ⟨.empty, ⟨60⟩, #[]⟩ = .ok s ∧ s.LogLeads actions ∧
      (s.run actions).covers ⟨120⟩ = true ∧
      ∃ live, (s.run actions).live? = some live ∧
        (⟨120⟩ : Lsn) ≤ ((s.run actions).host.map live).read b := by
  obtain ⟨s, hstart, hlog, hcovers, hid, hlive⟩ :
      let b : Block := ⟨⟨1663, 5, 16384⟩, .main, 3⟩
      let before : List Action := [.mark b ⟨60⟩, .advance ⟨120⟩, .replaceMap 16]
      let actions := before ++ [.mark b ⟨120⟩]
      ∃ s, start ⟨⟨"data"⟩, 8, "v1", none⟩ exemptNone ⟨.empty, ⟨60⟩, #[]⟩ = .ok s ∧
        s.LogLeads actions ∧
        (s.run actions).covers ⟨120⟩ = true ∧ (s.run before).live? = some 1 ∧
        (s.run actions).live? = some 1 :=
    ⟨_, rfl, by decide +kernel, rfl, rfl, rfl⟩
  refine ⟨s, hstart, hlog, hcovers, ?_⟩
  obtain ⟨live, hlive', hread⟩ := (covers_spec hstart hlog).1 ⟨120⟩ hcovers
  refine ⟨live, hlive', ?_⟩
  rcases hread _ _ ⟨120⟩ [] 1 rfl hid rfl le_rfl with h | ⟨hother, -, -⟩
  · exact h
  · exact absurd (Option.some.inj (hlive'.symm.trans hlive)) hother

/-- A covered baseline at which a mark is forgotten: the map was replaced right after the mark. -/
theorem covers_forgets_at_epoch :
    let b : Block := ⟨⟨1663, 5, 16384⟩, .main, 3⟩
    let actions : List Action := [.advance ⟨100⟩, .mark b ⟨100⟩, .replaceMap 8]
    ∃ s, start ⟨⟨"data"⟩, 8, "v1", none⟩ exemptNone ⟨.empty, ⟨50⟩, #[]⟩ = .ok s ∧ s.LogLeads actions ∧
      (s.run [.advance ⟨100⟩]).live? = some 0 ∧ (s.run actions).covers ⟨100⟩ = true ∧
      ∃ live, (s.run actions).live? = some live ∧
        ¬ (⟨100⟩ : Lsn) ≤ ((s.run actions).host.map live).read b := by
  refine ⟨_, rfl, ?_, rfl, rfl, 1, rfl, ?_⟩
  · decide +kernel
  · decide +kernel

end Tracking

end ChangeTracking
