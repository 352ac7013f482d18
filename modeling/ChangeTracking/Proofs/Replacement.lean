import ChangeTracking.Proofs.MapFiles
import ChangeTracking.Proofs.Run

/-!
# Replaced maps are retired

A map that was live is valid just as long as it is live.  Whatever makes another map live, or none,
retires the one that was live before, nothing makes a map valid again, and a map is valid when it
becomes live: `s.RetiresReplaced s'` says so of what happened from `s` to `s'`, and every action is
of that kind (`retiresReplaced_step`).  Whoever holds a map can therefore tell from the map alone
whether another has taken its place (`retired_of_replaces`).
-/

namespace ChangeTracking

namespace Tracking

variable {s s' : Tracking} {id : MapId}

/-- The live map is valid. -/
def LiveValid (s : Tracking) : Prop := ∀ id, s.live? = some id → (s.host.map id).valid = true

/-- From `s` to `s'`, maps were retired when they were replaced and only then, and none was made
valid: what is valid in `s'` was so in `s`, and is live if it was. -/
structure RetiresReplaced (s s' : Tracking) : Prop where
  size : s.host.maps.size ≤ s'.host.maps.size
  valid : ∀ id < s.host.maps.size,
    (s'.host.map id).valid = true → (s.host.map id).valid = true
  live : ∀ id < s.host.maps.size,
    (s'.host.map id).valid = true → s.live? = some id → s'.live? = some id
  liveValid : s.LiveValid → s'.LiveValid

namespace RetiresReplaced

@[refl] lemma refl (s : Tracking) : s.RetiresReplaced s :=
  ⟨le_rfl, fun _ _ h => h, fun _ _ _ h => h, id⟩

lemma trans {s₁ s₂ s₃ : Tracking} (h : s₁.RetiresReplaced s₂) (h' : s₂.RetiresReplaced s₃) :
    s₁.RetiresReplaced s₃ where
  size := h.size.trans h'.size
  valid id hid hvalid := h.valid id hid (h'.valid id (hid.trans_le h.size) hvalid)
  live id hid hvalid hlive := by
    have hid' := hid.trans_le h.size
    exact h'.live id hid' hvalid (h.live id hid (h'.valid id hid' hvalid) hlive)
  liveValid := h'.liveValid ∘ h.liveValid

end RetiresReplaced

lemma valid_retireLive (hlive : s.live? = some id) (hid : id < s.host.maps.size) :
    (s.retireLive.host.map id).valid = false := by
  simp only [retireLive, hlive, host_withHost, Host.map_updateMap_self hid]
  rfl

lemma map_retireLive (hlive : s.live? ≠ some id) :
    s.retireLive.host.map id = s.host.map id := by
  unfold retireLive
  split
  · next live hlive' =>
    have hne : id ≠ live := by
      rintro rfl
      exact hlive hlive'
    rw [host_withHost, Host.map_updateMap, if_neg (fun h => hne h.1)]
  · rfl

/-- What leaves the maps as they are once the live one was retired. -/
lemma retiresReplaced_of_retireLive (hsize : s.host.maps.size ≤ s'.host.maps.size)
    (hmap : ∀ id < s.host.maps.size, s'.host.map id = s.retireLive.host.map id)
    (hnew : s'.LiveValid) : s.RetiresReplaced s' where
  size := hsize
  valid id hid hvalid := by
    rw [hmap id hid] at hvalid
    by_cases hlive : s.live? = some id
    · rw [valid_retireLive hlive hid] at hvalid
      cases hvalid
    · rwa [map_retireLive hlive] at hvalid
  live id hid hvalid hlive := by
    rw [hmap id hid, valid_retireLive hlive hid] at hvalid
    cases hvalid
  liveValid _ := hnew

/-- What neither replaces a map nor changes whether one is valid. -/
lemma retiresReplaced_of_live (hlive : s'.live? = s.live?)
    (hsize : s.host.maps.size ≤ s'.host.maps.size)
    (hvalid : ∀ id, (s'.host.map id).valid = (s.host.map id).valid) : s.RetiresReplaced s' where
  size := hsize
  valid id _ h := by rwa [← hvalid id]
  live id _ _ h := by rwa [hlive]
  liveValid h id hid := by
    rw [hvalid]
    exact h id (hlive ▸ hid)

lemma retiresReplaced_markAll (s : Tracking) (k : MapId) (marks : List (Block × Lsn)) :
    s.RetiresReplaced (s.withHost (s.host.updateMap k (·.markAll marks))) := by
  refine retiresReplaced_of_live rfl (by simp) fun id => ?_
  rw [host_withHost, Host.map_updateMap]
  split
  · rw [ChangeMap.valid_markAll]
  · rfl

lemma retiresReplaced_mark (s : Tracking) (b : Block) (l : Lsn) :
    s.RetiresReplaced (s.mark b l) := by
  cases hlive : s.live? with
  | none => rw [mark_eq_self hlive]
  | some live =>
    rw [mark_eq hlive]
    exact s.retiresReplaced_markAll live _

lemma liveValid_withMap {m : ChangeMap} (hm : m.valid = true) (s : Tracking) :
    (s.withMap m).LiveValid := by
  intro id hid
  rw [live?_withMap, Option.some.injEq] at hid
  rw [← hid, Host.map_of_maps_eq_push (s.maps_withMap m), hm]

lemma liveValid_withNewMap {m : ChangeMap} (hm : m.valid = true) (s : Tracking) :
    (s.withNewMap m).LiveValid := liveValid_withMap hm _

lemma retiresReplaced_replaceMap (s : Tracking) (bytes : UInt64) :
    s.RetiresReplaced (s.replaceMap bytes).2 := by
  rcases s.replaceMap_cases bytes with ⟨-, h⟩ | ⟨-, m, hm, h⟩
  · rw [h]
  · rw [h]
    refine retiresReplaced_of_retireLive (by simp) (fun id hid => ?_)
      (liveValid_withNewMap (ChangeMap.valid_create hm) _)
    exact Host.map_of_lt_of_maps_eq_push (s.retireLive.maps_withNewMap m)
      (hid.trans_eq s.size_retireLive.symm)

lemma retiresReplaced_checkpoint (s : Tracking) : s.RetiresReplaced s.checkpoint.2 := by
  refine retiresReplaced_of_live s.live?_checkpoint (by simp) fun id => ?_
  rw [Host.map, maps_checkpoint, Host.map]

lemma retiresReplaced_stop (s : Tracking) : s.RetiresReplaced s.stop := by
  refine s.retiresReplaced_checkpoint.trans ?_
  rw [stop_eq]
  refine retiresReplaced_of_retireLive s.checkpoint.2.size_retireLive.ge (fun _ _ => rfl) ?_
  intro id hid
  simp at hid

lemma retiresReplaced_interrupt (s : Tracking) (e : Interruption) :
    s.RetiresReplaced (s.interrupt e) := by
  cases e with
  | replaceMap bytes => exact s.retiresReplaced_replaceMap bytes
  | stop => exact s.retiresReplaced_stop

lemma retiresReplaced_interrupts (s : Tracking) (events : List Interruption) :
    s.RetiresReplaced (events.foldl interrupt s) :=
  interrupts_invariant (P := s.RetiresReplaced)
    (fun s' e h => h.trans (s'.retiresReplaced_interrupt e)) (.refl s) events

lemma retiresReplaced_markPass (s : Tracking) (live : MapId) (root : Walk.Root)
    (events : List Interruption) : s.RetiresReplaced (s.markPass live root events).2 :=
  markPass_invariant (P := s.RetiresReplaced)
    (fun s' e h => h.trans (s'.retiresReplaced_interrupt e))
    (fun s' live marks h => h.trans (s'.retiresReplaced_markAll live marks)) (.refl s) live root
    events

lemma retiresReplaced_step (s : Tracking) (a : Action) : s.RetiresReplaced (s.step a) := by
  cases a with
  | mark b l => exact s.retiresReplaced_mark b l
  | markDirectory root events =>
    exact markDirectory_invariant (P := s.RetiresReplaced)
      (fun s' e h => h.trans (s'.retiresReplaced_interrupt e))
      (fun s' live marks h => h.trans (s'.retiresReplaced_markAll live marks)) (.refl s) root events
  | replaceMap bytes => exact s.retiresReplaced_replaceMap bytes
  | checkpoint => exact s.retiresReplaced_checkpoint
  | stop => exact s.retiresReplaced_stop
  | scan baseline => exact .refl s
  | advance position => exact retiresReplaced_of_live rfl le_rfl fun _ => rfl
  | changeTree tree => exact retiresReplaced_of_live rfl le_rfl fun _ => rfl

lemma retiresReplaced_run (s : Tracking) (actions : List Action) :
    s.RetiresReplaced (s.run actions) := by
  induction actions generalizing s with
  | nil => exact .refl s
  | cons a rest ih => exact (s.retiresReplaced_step a).trans (ih _)

lemma liveValid_of_started {config : Config} {isExempt : Path → Bool} {host : Host}
    (h : Started config isExempt host s) : s.LiveValid := by
  cases h with
  | turnedOff | unreadable =>
    intro id hid
    simp at hid
  | attached _ hload _ => exact liveValid_withMap (MapFile.valid_of_load hload) _
  | fresh _ _ _ hcreate => exact liveValid_withNewMap (ChangeMap.valid_create hcreate) _

/-! ## What replaces a map -/

/-- The action gives the tracker another map or none: a replacement that is not refused, the end of
tracking, or one of these while a directory is marked, which shows in the live map being another one
afterwards. -/
def Replaces (s : Tracking) : Action → Prop
  | .replaceMap bytes => ∃ l, (s.replaceMap bytes).1 = .ok l
  | .stop => True
  | a => (s.step a).live? ≠ s.live?

lemma live?_ne_of_replaces {a : Action} (h : s.Replaces a) (hid : id < s.host.maps.size)
    (hlive : s.live? = some id) : (s.step a).live? ≠ some id := by
  cases a with
  | replaceMap bytes =>
    obtain ⟨l, hl⟩ := h
    change (s.replaceMap bytes).2.live? ≠ some id
    rcases s.replaceMap_cases bytes with ⟨-, heq⟩ | ⟨-, m, -, heq⟩
    · rw [heq] at hl
      cases hl
    · rw [heq, live?_withNewMap, size_retireLive]
      exact fun hsame => hid.ne (Option.some.inj hsame).symm
  | stop =>
    change s.stop.live? ≠ some id
    rw [stop_eq, live?_withMode_idle]
    exact (Option.some_ne_none id).symm
  | mark | markDirectory | checkpoint | scan | advance | changeTree => exact hlive ▸ h

/-- A map that is valid only as long as it is live is retired by what replaces it. -/
lemma retired_of_replaces {a : Action} (h : s.Replaces a) (hid : id < s.host.maps.size)
    (hlive : (s.host.map id).valid = true → s.live? = some id) :
    ((s.step a).host.map id).valid = false := by
  have hstep := s.retiresReplaced_step a
  by_contra hvalid
  have hvalid' : ((s.step a).host.map id).valid = true := Bool.not_eq_false _ ▸ hvalid
  have hwas := hlive (hstep.valid id hid hvalid')
  exact live?_ne_of_replaces h hid hwas (hstep.live id hid hvalid' hwas)

end Tracking

end ChangeTracking
