import ChangeTracking.Proofs.Run

/-!
# Epochs of a tracker

A replacement starts its epoch after that of the map it replaces.  So the live map has the latest
epoch of all maps that were live since some time (`EpochsRise`), and a replacement starts later than
all of them.  That holds wherever the log's position stands, and although a map that did not know
its epoch may take one when it is marked: a directory is marked at the position at which the map
that took its place meanwhile has begun, so not beyond that.

It does not hold across the end of tracking.  A stopped tracker has forgotten its last map, and a
replacement then starts at the log's position, wherever the epochs before it started.
`replaceMap_epoch` states both.
-/

namespace ChangeTracking

/-- Whether a tracker is stopped by an action, at once or while a directory is being marked. -/
def Action.Stops : Action → Prop
  | .stop => True
  | .markDirectory _ events => ∃ now ∈ events, .stop ∈ now
  | _ => False

namespace Tracking

variable {s s' : Tracking} {live id : MapId} {bytes : UInt64}

/-- The map of the given number was live at some time from `s` to `s'`: at first, or it was taken in
later, which is when a map becomes live. -/
def LiveSince (s s' : Tracking) (id : MapId) : Prop :=
  s.live? = some id ∨ s.host.maps.size ≤ id ∧ id < s'.host.maps.size

namespace LiveSince

lemma of_leadsTo {s'' : Tracking} (h : s.LiveSince s' id) (hs : s'.LeadsTo s'') :
    s.LiveSince s'' id :=
  h.imp_right fun ⟨hle, hlt⟩ => ⟨hle, hlt.trans_le hs.host.size⟩

/-- The maps that were live are kept. -/
lemma lt_size (h : s.LiveSince s' id) (hs : s.Coherent) (hleads : s.LeadsTo s') :
    id < s'.host.maps.size := by
  rcases h with hid | ⟨-, hlt⟩
  · exact (hs id hid).trans_le hleads.host.size
  · exact hlt

/-- The map that takes the place of the live one is live from then on. -/
lemma withNewMap_self (hleads : s.LeadsTo s') (m : ChangeMap) :
    s.LiveSince (s'.retireLive.withNewMap m) s'.host.maps.size := by
  refine .inr ⟨hleads.host.size, ?_⟩
  simp

/-- All others were live before. -/
lemma of_withNewMap {m : ChangeMap} (h : s.LiveSince (s'.retireLive.withNewMap m) id)
    (hne : id ≠ s'.host.maps.size) : s.LiveSince s' id := by
  refine h.imp_right fun ⟨hle, hlt⟩ => ⟨hle, ?_⟩
  rw [maps_withNewMap, Array.size_push, size_retireLive] at hlt
  exact Nat.lt_of_le_of_ne (Nat.lt_succ_iff.mp hlt) hne

end LiveSince

/-- From `s` to `s'` the live map always had the latest epoch so far. -/
structure EpochsRise (s s' : Tracking) : Prop where
  leads : s.LeadsTo s'
  since : ∀ id, s'.live? = some id → s.LiveSince s' id
  top : ∀ id, s.LiveSince s' id →
    ∃ live, s'.live? = some live ∧ (s'.host.map id).epoch ≤ (s'.host.map live).epoch

namespace EpochsRise

lemma refl (s : Tracking) : s.EpochsRise s where
  leads := .refl s
  since _ hid := .inl hid
  top := by
    rintro id (hid | ⟨hle, hlt⟩)
    · exact ⟨id, hid, le_rfl⟩
    · exact absurd hlt (Nat.not_lt.mpr hle)

/-- What leaves the maps and the tracker's mode as they are. -/
lemma of_maps_eq {s'' : Tracking} (h : s.EpochsRise s') (hleads : s'.LeadsTo s'')
    (hlive : s''.live? = s'.live?) (hmaps : s''.host.maps = s'.host.maps) :
    s.EpochsRise s'' where
  leads := h.leads.trans hleads
  since id hid := (h.since id (hlive ▸ hid)).of_leadsTo hleads
  top id hid := by
    have hid' : s.LiveSince s' id := by rwa [LiveSince, ← hmaps]
    simpa only [hlive, Host.map, hmaps] using h.top id hid'

/-- Marks are made on the live map, or leave the map that they are made on behind the live one. -/
lemma markAll (h : s.EpochsRise s') {k : MapId} {marks : List (Block × Lsn)}
    (hlive : s'.live? = some live)
    (hk : k = live ∨ ((s'.host.map k).markAll marks).epoch ≤ (s'.host.map live).epoch) :
    s.EpochsRise (s'.withHost (s'.host.updateMap k (·.markAll marks))) where
  leads := h.leads.trans (s'.leadsTo_markAll k marks)
  since id hid := (h.since id hid).of_leadsTo (s'.leadsTo_markAll k marks)
  top id hid := by
    have hid' : s.LiveSince s' id := by simpa [LiveSince] using hid
    obtain ⟨live', hlive', htop⟩ := h.top id hid'
    obtain rfl : live = live' := Option.some.inj (hlive.symm.trans hlive')
    have hgrows : (s'.host.map live).epoch
        ≤ ((s'.host.updateMap k (·.markAll marks)).map live).epoch := by
      rw [Host.map_updateMap]
      split
      · exact (ChangeMap.growsTo_markAll _ _).epoch_le
      · exact le_rfl
    refine ⟨live, hlive, ?_⟩
    rw [host_withHost]
    by_cases hid : id = k ∧ k < s'.host.maps.size
    · rcases hk with rfl | hbehind
      · rw [hid.1]
      · refine le_trans ?_ hgrows
        rw [Host.map_updateMap, if_pos hid, hid.1]
        exact hbehind
    · refine le_trans ?_ hgrows
      rwa [Host.map_updateMap, if_neg hid]

lemma mark (h : s.EpochsRise s') (b : Block) (l : Lsn) : s.EpochsRise (s'.mark b l) := by
  cases hlive : s'.live? with
  | none => rwa [mark_eq_self hlive]
  | some live =>
    rw [mark_eq hlive]
    exact h.markAll hlive (.inl rfl)

/-- A replacement starts after the map it replaces, so after all before. -/
lemma withNewMap (h : s.EpochsRise s') (hs : s.Coherent) {m : ChangeMap}
    (hm : m.epoch = epochStart s'.host.position s'.liveMap?) :
    s.EpochsRise (s'.retireLive.withNewMap m) where
  leads := h.leads.trans (s'.leadsTo_retireLive.trans (s'.retireLive.leadsTo_withNewMap m))
  since id hid := by
    rw [live?_withNewMap, Option.some.injEq, size_retireLive] at hid
    exact hid ▸ .withNewMap_self h.leads m
  top id hid := by
    have hmaps := s'.retireLive.maps_withNewMap m
    refine ⟨_, live?_withNewMap _ m, ?_⟩
    rw [Host.map_of_maps_eq_push hmaps]
    rcases eq_or_ne id s'.retireLive.host.maps.size with rfl | hne
    · rw [Host.map_of_maps_eq_push hmaps]
    · have hid' : s.LiveSince s' id := hid.of_withNewMap (s'.size_retireLive ▸ hne)
      have hkept : id < s'.retireLive.host.maps.size := by
        rw [size_retireLive]
        exact hid'.lt_size hs h.leads
      obtain ⟨live, hlive, htop⟩ := h.top id hid'
      calc ((s'.retireLive.withNewMap m).host.map id).epoch
          = (s'.host.map id).epoch := by
            rw [Host.map_of_lt_of_maps_eq_push hmaps hkept, epoch_retireLive]
        _ ≤ (s'.host.map live).epoch := htop
        _ ≤ (s'.host.map live).epoch.next := Lsn.le_next _
        _ ≤ m.epoch := by
            rw [hm, liveMap?_of_live? hlive]
            exact next_le_epochStart _ _

lemma replaceMap (h : s.EpochsRise s') (hs : s.Coherent) (bytes : UInt64) :
    s.EpochsRise (s'.replaceMap bytes).2 := by
  rcases s'.replaceMap_cases bytes with ⟨-, heq⟩ | ⟨-, m, hm, heq⟩
  · rwa [heq]
  · rw [heq]
    exact h.withNewMap hs (ChangeMap.epoch_create hm)

/-! ### Marking a directory -/

/-- Whatever replaces the map that a pass is to mark starts at the log's position at least. -/
lemma interrupts (h : s.EpochsRise s') (hs : s.Coherent) {now : List Interruption}
    (hnow : .stop ∉ now)
    (hlive : s'.live? = some live ∨
      ∃ id, s'.live? = some id ∧ s'.host.position ≤ (s'.host.map id).epoch) :
    s.EpochsRise (now.foldl interrupt s') ∧
      ((now.foldl interrupt s').live? = some live ∨
        ∃ id, (now.foldl interrupt s').live? = some id ∧
          (now.foldl interrupt s').host.position
            ≤ ((now.foldl interrupt s').host.map id).epoch) := by
  induction now generalizing s' with
  | nil => exact ⟨h, hlive⟩
  | cons e rest ih =>
    simp only [List.mem_cons, not_or] at hnow
    cases e with
    | stop => exact absurd rfl hnow.1
    | replaceMap bytes =>
      apply ih (h.replaceMap hs bytes) hnow.2
      rcases s'.replaceMap_cases bytes with ⟨-, heq⟩ | ⟨-, m, hm, heq⟩
      · rwa [heq]
      · right
        rw [heq]
        refine ⟨_, live?_withNewMap _ m, ?_⟩
        rw [Host.map_of_maps_eq_push (maps_withNewMap _ m), position_withNewMap,
          position_retireLive, ChangeMap.epoch_create hm]
        exact le_epochStart _ _

lemma markPass (h : s.EpochsRise s') (hs : s.Coherent) (hlive : s'.live? = some live)
    (root : Walk.Root) {now : List Interruption} (hnow : .stop ∉ now) :
    s.EpochsRise (s'.markPass live root now).2 := by
  have hleads := s'.leadsTo_interrupts now
  obtain ⟨hrise, hthen⟩ := h.interrupts hs hnow (.inl hlive)
  rw [markPass_eq]
  rcases hthen with hsame | ⟨id, hid, hposition⟩
  · exact hrise.markAll hsame (.inl rfl)
  · refine hrise.markAll hid (.inr ?_)
    -- the map was replaced, and what replaced it has begun at the position of the marks or later
    have hbehind : ((now.foldl interrupt s').host.map live).epoch
        ≤ ((now.foldl interrupt s').host.map id).epoch := by
      obtain ⟨id', hid', htop⟩ := hrise.top live ((h.since live hlive).of_leadsTo hleads)
      rwa [Option.some.inj (hid.symm.trans hid')]
    apply ChangeMap.epoch_markAll_le hbehind
    rintro ⟨b, l⟩ hmark
    obtain ⟨rfl, -⟩ := ChangeMap.mem_segmentMarks.mp hmark
    rw [Lsn.latest_eq_max]
    exact max_le hposition hbehind

/-- The live map keeps the latest epoch in every step that does not stop the tracker. -/
lemma step (h : s.EpochsRise s') (hs : s.Coherent) {a : Action} (ha : ¬ a.Stops) :
    s.EpochsRise (s'.step a) := by
  cases a with
  | mark b l => exact h.mark b l
  | markDirectory root events =>
    change s.EpochsRise (s'.markDirectory root events).2
    unfold markDirectory
    split
    · exact h
    · apply markPasses_induction (P := s.EpochsRise) _ h
      intro s'' live now hnow hlive h
      refine h.markPass hs hlive root fun hstop => ?_
      rcases hnow with rfl | hnow
      · exact List.not_mem_nil hstop
      · exact ha ⟨now, hnow, hstop⟩
  | replaceMap bytes => exact h.replaceMap hs bytes
  | checkpoint => exact h.of_maps_eq s'.leadsTo_checkpoint s'.live?_checkpoint s'.maps_checkpoint
  | stop => exact absurd trivial ha
  | scan baseline => exact h
  | advance position => exact h.of_maps_eq (s'.leadsTo_step _) rfl rfl
  | changeTree tree => exact h.of_maps_eq (s'.leadsTo_step _) rfl rfl

lemma run (h : s.EpochsRise s') (hs : s.Coherent) {actions : List Action}
    (hactions : ∀ a ∈ actions, ¬ a.Stops) : s.EpochsRise (s'.run actions) := by
  induction actions generalizing s' with
  | nil => exact h
  | cons a rest ih =>
    apply ih (h.step hs (hactions a List.mem_cons_self))
    intro b hb
    exact hactions b (List.mem_cons_of_mem a hb)

end EpochsRise

/-! ## Replacements -/

/-- A replacement that is not refused gives the tracker an empty map with the epoch it answers. -/
lemma replaceMap_eq_ok {l : Lsn} (h : s.replaceMap bytes = (.ok l, s')) :
    l = epochStart s.host.position s.liveMap? ∧
      ∃ live, s'.live? = some live ∧ (s'.host.map live).epoch = l ∧
        (s'.host.map live).slotCount = bytes.toNat / slotBytes ∧
        ∀ j, (s'.host.map live).slot j = Lsn.never := by
  rcases s.replaceMap_cases bytes with ⟨-, heq⟩ | ⟨-, m, hm, heq⟩
  · rw [heq] at h
    cases h
  · rw [heq] at h
    cases h
    refine ⟨ChangeMap.epoch_create hm, _, live?_withNewMap _ m, ?_⟩
    rw [Host.map_of_maps_eq_push (maps_withNewMap _ m)]
    exact ⟨rfl, ChangeMap.slotCount_create hm, ChangeMap.slot_create hm⟩

/-- **Epochs rise, as long as the tracker is not stopped.**  After any run, a replacement that is
not refused answers the epoch of the new live map, which is empty and of the size that was asked
for.  That epoch is not before the log's position, and it is later than those of all maps that were
live since the tracker was last stopped.  An idle tracker starts it right at the log's position.  So
a tracker that is stopped and given a new map at a position that is not beyond its last epoch does
not come to a later one. -/
theorem replaceMap_epoch {config : Config} {isExempt : Path → Bool} {host : Host}
    (hstart : start config isExempt host = .ok s) (actions : List Action) :
    (∀ bytes l s', (s.run actions).replaceMap bytes = (.ok l, s') →
      (∃ live, s'.live? = some live ∧ (s'.host.map live).epoch = l ∧
        (s'.host.map live).slotCount = bytes.toNat / slotBytes ∧
        ∀ j, (s'.host.map live).slot j = Lsn.never) ∧
      (∀ earlier later id, actions = earlier ++ later → (∀ a ∈ later, ¬ a.Stops) →
        (s.run earlier).LiveSince (s.run actions) id →
        ((s.run actions).host.map id).epoch < Lsn.last →
        ((s.run actions).host.map id).epoch < l) ∧
      (s.run actions).host.position ≤ l ∧
      ((s.run actions).live? = none → l = (s.run actions).host.position)) ∧
    (∀ live bytes, (s.run actions).live? = some live → GoodMapSize bytes →
      (s.run actions).host.position ≤ ((s.run actions).host.map live).epoch →
      ∃ l s', (s.run actions).stop.replaceMap bytes = (.ok l, s') ∧
        ¬ ((s.run actions).host.map live).epoch < l) := by
  have hs := coherent_of_started (started_of_start hstart).2
  constructor
  · intro bytes l s' hreplace
    obtain ⟨rfl, hnew⟩ := replaceMap_eq_ok hreplace
    refine ⟨hnew, ?_, le_epochStart _ _, ?_⟩
    · rintro earlier later id rfl hlater hid hlast
      have hearlier := (s.leadsTo_run earlier).coherent hs
      rw [run_append] at *
      obtain ⟨live, hlive, htop⟩ := ((EpochsRise.refl _).run hearlier hlater).top id hid
      rw [liveMap?_of_live? hlive]
      exact (Lsn.lt_next_of_le htop hlast).trans_le (next_le_epochStart _ _)
    · intro hidle
      rw [liveMap?, hidle]
      rfl
  · intro live bytes hlive hsize hposition
    rcases (s.run actions).stop.replaceMap_cases bytes with ⟨hbad, -⟩ | ⟨-, m, hm, heq⟩
    · exact absurd hsize hbad
    · refine ⟨_, _, heq, ?_⟩
      have hidle : (s.run actions).stop.liveMap? = none := by simp [liveMap?, stop_eq]
      have hsame : (s.run actions).stop.host.position = (s.run actions).host.position := by
        simp [stop_eq]
      rw [ChangeMap.epoch_create hm, hidle, hsame]
      exact not_lt.mpr hposition

/-- A replacement after the log's position went back. -/
theorem replaceMap_epoch_behind :
    let actions : List Action := [.replaceMap 8, .advance ⟨10⟩]
    ∃ s l s', start ⟨⟨"data"⟩, 8, "v1", none⟩ exemptNone ⟨.empty, ⟨50⟩, #[]⟩ = .ok s ∧
      (s.run actions).replaceMap 16 = (.ok l, s') ∧
      ((s.run actions).host.map 1).epoch = ⟨51⟩ ∧ ((s.run actions).host.map 1).epoch < l := by
  obtain ⟨s, s', hstart, hreplace, hsince, hepoch⟩ :
      let actions : List Action := [.replaceMap 8, .advance ⟨10⟩]
      ∃ s s', start ⟨⟨"data"⟩, 8, "v1", none⟩ exemptNone ⟨.empty, ⟨50⟩, #[]⟩ = .ok s ∧
        (s.run actions).replaceMap 16 = (.ok ⟨52⟩, s') ∧
        s.LiveSince (s.run actions) 1 ∧ ((s.run actions).host.map 1).epoch = ⟨51⟩ :=
    ⟨_, _, rfl, rfl, .inr ⟨by decide +kernel, by decide +kernel⟩, rfl⟩
  refine ⟨s, ⟨52⟩, s', hstart, hreplace, hepoch, ?_⟩
  apply ((replaceMap_epoch hstart [.replaceMap 8, .advance ⟨10⟩]).1 16 ⟨52⟩ s' hreplace).2.1
    [] [.replaceMap 8, .advance ⟨10⟩] 1 rfl
  · simp [Action.Stops]
  · exact hsince
  · rw [hepoch]
    decide

/-- A tracker that was stopped starts its next epoch where the one before it started. -/
theorem replaceMap_epoch_after_stop :
    ∃ s s', start ⟨⟨"data"⟩, 8, "v1", none⟩ exemptNone ⟨.empty, ⟨100⟩, #[]⟩ = .ok s ∧
      s.live? = some 0 ∧ (s.run [.stop]).replaceMap 8 = (.ok ⟨100⟩, s') ∧
      ((s.run [.stop]).host.map 0).epoch < Lsn.last ∧
      ¬ ((s.run [.stop]).host.map 0).epoch < ⟨100⟩ := by
  refine ⟨_, _, rfl, rfl, rfl, ?_, ?_⟩
  · decide +kernel
  · decide +kernel

end Tracking

end ChangeTracking
