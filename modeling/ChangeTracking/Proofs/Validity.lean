import ChangeTracking.Proofs.Epochs
import ChangeTracking.Proofs.Replacement
import Mathlib.Logic.Relation

/-!
# Just the live map is valid

Whoever has asked a tracker for its map keeps the map's number, and can tell from the map alone
whether the tracker still records in it.  The map is valid if and only if it is the live one, at
every moment from then on: between two actions, and also while a directory is being marked
(`valid_iff_live`).

Moments follow each other by `Happens`.  An action is one happening, and so is each interruption of
a pass, which is an action as well.  What a pass does itself is to mark the map that it has taken,
which need not be the live one any more.

`Replacement` says what becomes of a map that was there before.  Here it has to be said also of
those that were taken in and replaced within one action.  So the invariant is about all maps that
were live since some moment (`OnlyLiveValid`), and it is shown for what directories are marked with,
interruptions and marks.
-/

namespace ChangeTracking

namespace Tracking

variable {s s' s'' : Tracking} {id : MapId}

/-- What can be between one moment and the next. -/
inductive Happens : Tracking → Tracking → Prop
  | action (s : Tracking) (a : Action) : Happens s (s.step a)
  /-- A pass marks blocks on the map that it has taken. -/
  | markTaken (s : Tracking) (taken : MapId) (marks : List (Block × Lsn)) :
      Happens s (s.withHost (s.host.updateMap taken (·.markAll marks)))

/-- `s'` is a moment from `s` on. -/
abbrev Later (s s' : Tracking) : Prop := Relation.ReflTransGen Happens s s'

lemma later_run (s : Tracking) (actions : List Action) : s.Later (s.run actions) := by
  induction actions generalizing s with
  | nil => exact .refl
  | cons a rest ih => exact .head (.action s a) (ih _)

lemma Happens.leadsTo (h : s.Happens s') : s.LeadsTo s' := by
  cases h with
  | action a => exact s.leadsTo_step a
  | markTaken taken marks => exact s.leadsTo_markAll taken marks

lemma Happens.retiresReplaced (h : s.Happens s') : s.RetiresReplaced s' := by
  cases h with
  | action a => exact s.retiresReplaced_step a
  | markTaken taken marks => exact s.retiresReplaced_markAll taken marks

lemma Later.leadsTo (h : s.Later s') : s.LeadsTo s' := by
  induction h with
  | refl => exact .refl s
  | tail _ hlast ih => exact ih.trans hlast.leadsTo

lemma Later.retiresReplaced (h : s.Later s') : s.RetiresReplaced s' := by
  induction h with
  | refl => exact .refl s
  | tail _ hlast ih => exact ih.trans hlast.retiresReplaced

/-- Of the maps that were live since `s`, just the live one is valid. -/
structure OnlyLiveValid (s s' : Tracking) : Prop where
  leads : s.LeadsTo s'
  since : ∀ id, s'.live? = some id → s.LiveSince s' id
  valid_iff : ∀ id, s.LiveSince s' id → ((s'.host.map id).valid = true ↔ s'.live? = some id)

namespace OnlyLiveValid

lemma refl (h : s.LiveValid) : s.OnlyLiveValid s where
  leads := .refl s
  since _ hid := .inl hid
  valid_iff := by
    rintro id (hid | ⟨hle, hlt⟩)
    · exact iff_of_true (h id hid) hid
    · exact absurd hlt (Nat.not_lt.mpr hle)

/-- What takes in no map, and changes neither which one is live nor whether one is valid. -/
lemma of_valid_eq (h : s.OnlyLiveValid s') (hleads : s'.LeadsTo s'')
    (hlive : s''.live? = s'.live?) (hsize : s''.host.maps.size = s'.host.maps.size)
    (hvalid : ∀ id, (s''.host.map id).valid = (s'.host.map id).valid) : s.OnlyLiveValid s'' where
  leads := h.leads.trans hleads
  since id hid := (h.since id (hlive ▸ hid)).of_leadsTo hleads
  valid_iff id hid := by
    have hid' : s.LiveSince s' id := by rwa [LiveSince, ← hsize]
    rw [hvalid, hlive]
    exact h.valid_iff id hid'

lemma markAll (h : s.OnlyLiveValid s') (taken : MapId) (marks : List (Block × Lsn)) :
    s.OnlyLiveValid (s'.withHost (s'.host.updateMap taken (·.markAll marks))) := by
  refine h.of_valid_eq (s'.leadsTo_markAll taken marks) rfl (by simp) fun id => ?_
  rw [host_withHost, Host.map_updateMap]
  split
  · rw [ChangeMap.valid_markAll]
  · rfl

lemma mark (h : s.OnlyLiveValid s') (b : Block) (l : Lsn) : s.OnlyLiveValid (s'.mark b l) := by
  cases hlive : s'.live? with
  | none => rwa [mark_eq_self hlive]
  | some live =>
    rw [mark_eq hlive]
    exact h.markAll live _

lemma checkpoint (h : s.OnlyLiveValid s') : s.OnlyLiveValid s'.checkpoint.2 := by
  refine h.of_valid_eq s'.leadsTo_checkpoint s'.live?_checkpoint (by simp) fun id => ?_
  rw [Host.map, maps_checkpoint, Host.map]

/-- Once the live map is retired, no map is valid of those that were live. -/
lemma valid_retireLive_eq_false (h : s.OnlyLiveValid s') (hs : s.Coherent)
    (hid : s.LiveSince s' id) : (s'.retireLive.host.map id).valid = false := by
  by_cases hlive : s'.live? = some id
  · exact valid_retireLive hlive (hid.lt_size hs h.leads)
  · rw [map_retireLive hlive, ← Bool.not_eq_true, h.valid_iff id hid]
    exact hlive

lemma stop (h : s.OnlyLiveValid s') (hs : s.Coherent) : s.OnlyLiveValid s'.stop := by
  rw [stop_eq]
  refine ⟨h.leads.trans (stop_eq s' ▸ s'.leadsTo_stop), fun id hid => by simp at hid, ?_⟩
  intro id hid
  have hid' : s.LiveSince s'.checkpoint.2 id := by
    simpa only [LiveSince, host_withMode, size_retireLive] using hid
  rw [host_withMode, h.checkpoint.valid_retireLive_eq_false hs hid', live?_withMode_idle]
  simp

/-- The map that is taken in is valid and live, and those before it are neither. -/
lemma withNewMap (h : s.OnlyLiveValid s') (hs : s.Coherent) {m : ChangeMap} (hm : m.valid = true) :
    s.OnlyLiveValid (s'.retireLive.withNewMap m) where
  leads := h.leads.trans (s'.leadsTo_retireLive.trans (s'.retireLive.leadsTo_withNewMap m))
  since id hid := by
    rw [live?_withNewMap, Option.some.injEq, size_retireLive] at hid
    exact hid ▸ .withNewMap_self h.leads m
  valid_iff id hid := by
    have hmaps := s'.retireLive.maps_withNewMap m
    rw [live?_withNewMap]
    rcases eq_or_ne id s'.retireLive.host.maps.size with rfl | hne
    · exact iff_of_true ((Host.map_of_maps_eq_push hmaps).symm ▸ hm) rfl
    · have hid' : s.LiveSince s' id := hid.of_withNewMap (s'.size_retireLive ▸ hne)
      have hkept := (hid'.lt_size hs h.leads).trans_eq s'.size_retireLive.symm
      rw [Host.map_of_lt_of_maps_eq_push hmaps hkept, h.valid_retireLive_eq_false hs hid',
        Option.some.injEq]
      exact iff_of_false Bool.false_ne_true hne.symm

lemma replaceMap (h : s.OnlyLiveValid s') (hs : s.Coherent) (bytes : UInt64) :
    s.OnlyLiveValid (s'.replaceMap bytes).2 := by
  rcases s'.replaceMap_cases bytes with ⟨-, heq⟩ | ⟨-, m, hm, heq⟩
  · rwa [heq]
  · rw [heq]
    exact h.withNewMap hs (ChangeMap.valid_create hm)

lemma interrupt (h : s.OnlyLiveValid s') (hs : s.Coherent) (e : Interruption) :
    s.OnlyLiveValid (s'.interrupt e) := by
  cases e with
  | replaceMap bytes => exact h.replaceMap hs bytes
  | stop => exact h.stop hs

lemma step (h : s.OnlyLiveValid s') (hs : s.Coherent) (a : Action) :
    s.OnlyLiveValid (s'.step a) := by
  cases a with
  | mark b l => exact h.mark b l
  | markDirectory root events =>
    exact markDirectory_invariant (P := s.OnlyLiveValid) (fun _ e h => h.interrupt hs e)
      (fun _ taken marks h => h.markAll taken marks) h root events
  | replaceMap bytes => exact h.replaceMap hs bytes
  | checkpoint => exact h.checkpoint
  | stop => exact h.stop hs
  | scan baseline => exact h
  | advance position => exact h.of_valid_eq (s'.leadsTo_step _) rfl rfl fun _ => rfl
  | changeTree tree => exact h.of_valid_eq (s'.leadsTo_step _) rfl rfl fun _ => rfl

lemma later (h : s.OnlyLiveValid s') (hs : s.Coherent) (hlater : s'.Later s'') :
    s.OnlyLiveValid s'' := by
  induction hlater with
  | refl => exact h
  | tail _ hlast ih =>
    cases hlast with
    | action a => exact ih.step hs a
    | markTaken taken marks => exact ih.markAll taken marks

end OnlyLiveValid

/-- **Just the live map is valid.**  Take any moment in the course of a started tracker at which its
map was asked for, and any later one.  The map is valid then if and only if it is the live one.  So
of all maps that were ever asked for at most one is valid, and one that was replaced stays so, and
is never valid again. -/
theorem valid_iff_live {config : Config} {isExempt : Path → Bool} {host : Host}
    {started asked now : Tracking} (hstart : start config isExempt host = .ok started)
    (hasked : started.Later asked) (hid : asked.live? = some id) (hnow : asked.Later now) :
    ((now.host.map id).valid = true ↔ now.live? = some id) ∧
    (∀ asked' other, started.Later asked' → asked'.live? = some other → asked'.Later now →
      (now.host.map id).valid = true → (now.host.map other).valid = true → other = id) ∧
    (now.live? ≠ some id → ∀ later, now.Later later →
      later.live? ≠ some id ∧ (later.host.map id).valid = false) := by
  have hstarted := (started_of_start hstart).2
  have hs := coherent_of_started hstarted
  have hbegin : started.OnlyLiveValid started := .refl (liveValid_of_started hstarted)
  have hiff : ∀ {asked later : Tracking} {id : MapId}, started.Later asked →
      asked.live? = some id → asked.Later later →
      ((later.host.map id).valid = true ↔ later.live? = some id) := by
    intro asked later id hasked hid hlater
    have hsince := (hbegin.later hs hasked).since id hid
    exact (hbegin.later hs (hasked.trans hlater)).valid_iff id (hsince.of_leadsTo hlater.leadsTo)
  refine ⟨hiff hasked hid hnow, ?_, ?_⟩
  · intro asked' other hasked' hother hnow' hvalid hvalid'
    have hlive := (hiff hasked hid hnow).mp hvalid
    have hlive' := (hiff hasked' hother hnow').mp hvalid'
    exact Option.some.inj (hlive'.symm.trans hlive)
  · intro hreplaced later hlater
    have hkept : id < now.host.maps.size :=
      (hasked.leadsTo.coherent hs id hid).trans_le hnow.leadsTo.host.size
    have hretired : (later.host.map id).valid = false := by
      rw [← Bool.not_eq_true]
      intro hvalid
      exact hreplaced
        ((hiff hasked hid hnow).mp (hlater.retiresReplaced.valid id hkept hvalid))
    refine ⟨fun hlive => ?_, hretired⟩
    rw [← hiff hasked hid (hnow.trans hlater), hretired] at hlive
    exact Bool.false_ne_true hlive

/-- The map that a tracker was started with, after it was replaced while a directory was marked. -/
theorem valid_iff_live_replaced :
    let actions : List Action := [.markDirectory ⟨⟨"data"⟩, .unknown⟩ [[.replaceMap 16]], .checkpoint]
    ∃ s, start ⟨⟨"data"⟩, 8, "v1", none⟩ exemptNone ⟨.empty, ⟨50⟩, #[]⟩ = .ok s ∧ s.live? = some 0 ∧
      (s.run actions).live? = some 1 ∧
      (((s.run actions).host.map 0).valid = true ↔ (s.run actions).live? = some 0) := by
  obtain ⟨s, hstart, hid, hlive⟩ :
      ∃ s, start ⟨⟨"data"⟩, 8, "v1", none⟩ exemptNone ⟨.empty, ⟨50⟩, #[]⟩ = .ok s ∧ s.live? = some 0 ∧
        (s.run [.markDirectory ⟨⟨"data"⟩, .unknown⟩ [[.replaceMap 16]], .checkpoint]).live?
          = some 1 :=
    ⟨_, rfl, rfl, rfl⟩
  exact ⟨s, hstart, hid, hlive, (valid_iff_live hstart .refl hid (s.later_run _)).1⟩

end Tracking

end ChangeTracking
