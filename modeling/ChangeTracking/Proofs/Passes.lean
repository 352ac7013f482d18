import ChangeTracking.Proofs.Replacement
import Mathlib.Algebra.Order.BigOperators.Group.Finset
import Mathlib.Data.List.GetD

/-!
# How many passes there are

A directory is marked in passes, and there is another pass if the map is invalid after the last one.
That is meant for maps that were replaced meanwhile.  But a map can also be retired by somebody who
holds it, while it is live and stays so.  Then nothing ends the passes but a replacement or the end
of tracking, and a directory that is marked while neither comes is marked for ever.

`Reached` is what may have become of a tracker, with the list of the maps that were retired by hand.
The invariant (`Reached.kept`) is that a live map is valid unless it is on that list.  So a live map
that is not on the list makes each further pass the work of an event in the pass before
(`HasPass.exists_effective`), and one that is on it makes the passes go on as long as there is no
such event (`hasPass_of_spoilt`).  `markDirectory_endless_iff` puts the two together.
-/

namespace ChangeTracking

/-- Whether an interruption gives the tracker another map, or none: a replacement by a map of a size
that no map can have does not. -/
def Interruption.Effective : Interruption → Prop
  | .replaceMap bytes => GoodMapSize bytes
  | .stop => True

instance : DecidablePred Interruption.Effective
  | .replaceMap bytes => inferInstanceAs (Decidable (GoodMapSize bytes))
  | .stop => inferInstanceAs (Decidable True)

namespace Tracking

variable {s s' s'' : Tracking} {root : Walk.Root} {live : MapId} {now : List Interruption}
  {during : ℕ → List Interruption}

/-! ## Passes -/

/-- The tracker after a pass that is to be made again. -/
def again? (s : Tracking) (root : Walk.Root) (now : List Interruption) : Option Tracking :=
  s.live?.bind fun live =>
    let s' := (s.markPass live root now).2
    if (s'.host.map live).valid then none else some s'

/-- The tracker when the pass of the given number is to begin, if it comes to that.  `during` says
what happens during each pass. -/
def before? (s : Tracking) (root : Walk.Root) (during : ℕ → List Interruption) :
    ℕ → Option Tracking
  | 0 => some s
  | n + 1 => (before? s root during n).bind (·.again? root (during n))

/-- There is a pass of the given number; the first one is number 0.  There is none if the tracker is
idle when the pass is to begin. -/
def HasPass (s : Tracking) (root : Walk.Root) (during : ℕ → List Interruption) (n : ℕ) : Prop :=
  ∃ s' live, s.before? root during n = some s' ∧ s'.live? = some live

/-- What happens during each pass, where the list says it of the first ones. -/
def scheduled (events : List (List Interruption)) (n : ℕ) : List Interruption := events.getD n []

lemma again?_eq_some :
    s.again? root now = some s' ↔ ∃ live, s.live? = some live ∧
      ((s.markPass live root now).2.host.map live).valid = false ∧
      s' = (s.markPass live root now).2 := by
  unfold again?
  constructor
  · intro h
    obtain ⟨live, hlive, hpass⟩ := Option.bind_eq_some_iff.mp h
    refine ⟨live, hlive, ?_⟩
    dsimp only at hpass
    split at hpass
    · cases hpass
    · next hinvalid => exact ⟨Bool.not_eq_true _ ▸ hinvalid, (Option.some.inj hpass).symm⟩
  · rintro ⟨live, hlive, hinvalid, rfl⟩
    rw [hlive, Option.bind_some]
    dsimp only
    rw [hinvalid]
    rfl

/-- The passes after some are those of the tracker that these leave. -/
lemma before?_add (s : Tracking) (root : Walk.Root) (during : ℕ → List Interruption) (k n : ℕ) :
    s.before? root during (k + n)
      = (s.before? root during k).bind (·.before? root (fun i => during (k + i)) n) := by
  induction n with
  | zero => cases s.before? root during k <;> simp [before?]
  | succ n ih =>
    rw [← Nat.add_assoc, before?, ih, Option.bind_assoc]
    rfl

lemma hasPass_add {k n : ℕ} :
    s.HasPass root during (k + n) ↔
      ∃ s', s.before? root during k = some s' ∧
        s'.HasPass root (fun i => during (k + i)) n := by
  simp only [HasPass, before?_add, Option.bind_eq_some_iff]
  constructor
  · rintro ⟨s', live, ⟨s₁, hs₁, hbefore⟩, hlive⟩
    exact ⟨s₁, hs₁, s', live, hbefore, hlive⟩
  · rintro ⟨s₁, hs₁, s', live, hbefore, hlive⟩
    exact ⟨s', live, ⟨s₁, hs₁, hbefore⟩, hlive⟩

lemma hasPass_succ {n : ℕ} :
    s.HasPass root during (n + 1) ↔
      ∃ s', s.again? root (during 0) = some s' ∧
        s'.HasPass root (fun i => during (i + 1)) n := by
  rw [Nat.add_comm, hasPass_add]
  simp only [before?, Option.bind_some, Nat.add_comm 1]

/-- Each pass but the first has one before it, which is to be made again. -/
lemma HasPass.of_succ {n : ℕ} (h : s.HasPass root during (n + 1)) : s.HasPass root during n := by
  obtain ⟨s', live, hbefore, -⟩ := h
  rw [before?] at hbefore
  obtain ⟨s₁, hs₁, hagain⟩ := Option.bind_eq_some_iff.mp hbefore
  obtain ⟨live₁, hlive₁, -⟩ := again?_eq_some.mp hagain
  exact ⟨s₁, live₁, hs₁, hlive₁⟩

/-! ## What happens during a pass -/

/-- Interruptions that have no effect change nothing, and any other leaves a live map that is
valid. -/
lemma interrupts_cases (s : Tracking) (events : List Interruption) :
    ((∀ e ∈ events, ¬ e.Effective) ∧ events.foldl interrupt s = s) ∨
      (∃ e ∈ events, e.Effective) ∧ (events.foldl interrupt s).LiveValid := by
  induction events generalizing s with
  | nil => exact .inl ⟨by simp, rfl⟩
  | cons e rest ih =>
    have hone : (¬ e.Effective ∧ s.interrupt e = s) ∨ e.Effective ∧ (s.interrupt e).LiveValid := by
      cases e with
      | replaceMap bytes =>
        rcases s.replaceMap_cases bytes with ⟨hsize, heq⟩ | ⟨hsize, m, hm, heq⟩
        · exact .inl ⟨hsize, congrArg Prod.snd heq⟩
        · refine .inr ⟨hsize, ?_⟩
          rw [interrupt, heq]
          exact liveValid_withNewMap (ChangeMap.valid_create hm) _
      | stop =>
        refine .inr ⟨trivial, ?_⟩
        rw [interrupt, stop_eq]
        intro id hid
        simp at hid
    rw [List.foldl_cons]
    rcases hone with ⟨hnot, heq⟩ | ⟨heffective, hvalid⟩
    · rw [heq]
      refine (ih s).imp ?_ ?_
      · rintro ⟨hall, hsame⟩
        exact ⟨List.forall_mem_cons.mpr ⟨hnot, hall⟩, hsame⟩
      · rintro ⟨⟨e', he', heffective⟩, hvalid⟩
        exact ⟨⟨e', List.mem_cons_of_mem e he', heffective⟩, hvalid⟩
    · right
      refine ⟨⟨e, List.mem_cons_self, heffective⟩, ?_⟩
      exact (retiresReplaced_interrupts _ rest).liveValid hvalid

lemma valid_markHeld (s : Tracking) (id : MapId) (marks : List (Block × Lsn)) (k : MapId) :
    ((s.withHost (s.host.updateMap id (·.markAll marks))).host.map k).valid
      = (s.host.map k).valid := by
  rw [host_withHost, Host.map_updateMap]
  split
  · rw [ChangeMap.valid_markAll]
  · rfl

/-- After a pass without effect from outside, the maps are as valid as before. -/
lemma valid_markPass (hquiet : ∀ e ∈ now, ¬ e.Effective) (root : Walk.Root) (live id : MapId) :
    ((s.markPass live root now).2.host.map id).valid = (s.host.map id).valid ∧
      (s.markPass live root now).2.live? = s.live? := by
  have hsame : now.foldl interrupt s = s := by
    rcases s.interrupts_cases now with ⟨-, hsame⟩ | ⟨⟨e, he, heffective⟩, -⟩
    · exact hsame
    · exact absurd heffective (hquiet e he)
  rw [markPass_eq, hsame]
  exact ⟨valid_markHeld s live _ id, rfl⟩

/-- After a pass with an effect from outside, the live map is valid. -/
lemma liveValid_markPass (heffective : ∃ e ∈ now, e.Effective) (live : MapId) :
    (s.markPass live root now).2.LiveValid := by
  have hvalid : (now.foldl interrupt s).LiveValid := by
    rcases s.interrupts_cases now with ⟨hquiet, -⟩ | ⟨-, hvalid⟩
    · obtain ⟨e, he, heffective⟩ := heffective
      exact absurd heffective (hquiet e he)
    · exact hvalid
  rw [markPass_eq]
  intro id hid
  rw [valid_markHeld]
  exact hvalid id hid

/-! ## If the live map is valid -/

lemma LiveValid.before? (h : s.LiveValid) {n : ℕ} (hs : s.before? root during n = some s') :
    s'.LiveValid := by
  induction n generalizing s' with
  | zero =>
    obtain rfl : s = s' := Option.some.inj hs
    exact h
  | succ n ih =>
    rw [Tracking.before?] at hs
    obtain ⟨s₁, hs₁, hagain⟩ := Option.bind_eq_some_iff.mp hs
    obtain ⟨live, -, -, rfl⟩ := again?_eq_some.mp hagain
    exact (s₁.retiresReplaced_markPass live root (during n)).liveValid (ih hs₁)

/-- A further pass was brought about by what happened during the pass before. -/
lemma HasPass.exists_effective (hvalid : s.LiveValid) {n : ℕ}
    (h : s.HasPass root during (n + 1)) : ∃ e ∈ during n, e.Effective := by
  obtain ⟨s', -, hbefore, -⟩ := h
  rw [Tracking.before?] at hbefore
  obtain ⟨s₁, hs₁, hagain⟩ := Option.bind_eq_some_iff.mp hbefore
  obtain ⟨live, hlive, hinvalid, -⟩ := again?_eq_some.mp hagain
  by_contra hquiet
  simp only [not_exists, not_and] at hquiet
  have hstill := (valid_markPass (s := s₁) hquiet root live live).1
  rw [hinvalid, hvalid.before? hs₁ live hlive] at hstill
  cases hstill

/-- How many interruptions have an effect before the pass of the given number. -/
def effectiveBefore (during : ℕ → List Interruption) (n : ℕ) : ℕ :=
  ∑ i ∈ Finset.range n, (during i).countP (decide ·.Effective)

/-- There are no more passes after the first than interruptions with an effect. -/
lemma HasPass.le_effectiveBefore (hvalid : s.LiveValid) {n : ℕ} (h : s.HasPass root during n) :
    n ≤ effectiveBefore during n := by
  induction n with
  | zero => exact Nat.zero_le _
  | succ n ih =>
    obtain ⟨e, he, heffective⟩ := h.exists_effective hvalid
    have hone : 0 < (during n).countP (decide ·.Effective) :=
      List.countP_pos_iff.mpr ⟨e, he, decide_eq_true heffective⟩
    have hbefore := ih h.of_succ
    rw [effectiveBefore, Finset.sum_range_succ, ← effectiveBefore]
    omega

/-! ## If the live map was retired by hand -/

/-- Nothing but what happens during the passes ends them, if the live map is invalid. -/
lemma hasPass_of_spoilt (hlive : s.live? = some live) (hinvalid : (s.host.map live).valid = false)
    {n : ℕ} (hquiet : ∀ i < n, ∀ e ∈ during i, ¬ e.Effective) : s.HasPass root during n := by
  induction n generalizing s during with
  | zero => exact ⟨s, live, rfl, hlive⟩
  | succ n ih =>
    obtain ⟨hstill, hlive'⟩ := valid_markPass (s := s) (hquiet 0 n.succ_pos) root live live
    rw [hinvalid] at hstill
    rw [hasPass_succ]
    refine ⟨_, again?_eq_some.mpr ⟨live, hlive, hstill, rfl⟩, ?_⟩
    exact ih (hlive'.trans hlive) hstill fun i hi => hquiet (i + 1) (Nat.succ_lt_succ hi)

/-- If the passes do not end, no interruption has an effect. -/
lemma quiet_of_hasPass {events : List (List Interruption)}
    (h : ∀ n, s.HasPass root (scheduled events) n) :
    ∀ now ∈ events, ∀ e ∈ now, ¬ e.Effective := by
  intro now hnow e he heffective
  obtain ⟨i, hi, rfl⟩ := List.getElem_of_mem hnow
  -- After the pass in which it has one the live map is valid, and nothing happens in the end.
  obtain ⟨s₁, hs₁, hlater⟩ := hasPass_add.mp (h (i + 1 + (events.length + 1)))
  have hvalid : s₁.LiveValid := by
    rw [before?] at hs₁
    obtain ⟨s₀, -, hagain⟩ := Option.bind_eq_some_iff.mp hs₁
    obtain ⟨live, -, -, rfl⟩ := again?_eq_some.mp hagain
    apply liveValid_markPass
    refine ⟨e, ?_, heffective⟩
    rwa [scheduled, List.getD_eq_getElem _ _ hi]
  obtain ⟨e', he', -⟩ := hlater.exists_effective hvalid
  rw [scheduled, List.getD_eq_default _ _ (by omega)] at he'
  cases he'

lemma markPasses_nil_endless :
    (s.markPasses root []).1 = .endless ↔ ∃ s', s.again? root [] = some s' := by
  cases hlive : s.live? with
  | none => simp [markPasses, again?, hlive]
  | some live =>
    cases hvalid : ((s.markPass live root []).2.host.map live).valid <;>
      simp [markPasses, again?, hlive, hvalid]

lemma markPasses_cons_endless {later : List (List Interruption)} :
    (s.markPasses root (now :: later)).1 = .endless ↔
      ∃ s', s.again? root now = some s' ∧ (s'.markPasses root later).1 = .endless := by
  cases hlive : s.live? with
  | none => simp [markPasses, again?, hlive]
  | some live =>
    cases hvalid : ((s.markPass live root now).2.host.map live).valid <;>
      simp [markPasses, again?, hlive, hvalid]

/-- A directory is marked without end if and only if there is a pass of every number. -/
lemma markPasses_endless_iff (s : Tracking) (root : Walk.Root)
    (events : List (List Interruption)) :
    (s.markPasses root events).1 = .endless ↔ ∀ n, s.HasPass root (scheduled events) n := by
  induction events generalizing s with
  | nil =>
    rw [markPasses_nil_endless]
    constructor
    · rintro ⟨s', hagain⟩ n
      obtain ⟨live, hlive, hinvalid, -⟩ := again?_eq_some.mp hagain
      rw [(valid_markPass (by simp) root live live).1] at hinvalid
      exact hasPass_of_spoilt hlive hinvalid fun i _ e he => by simp [scheduled] at he
    · intro h
      obtain ⟨s', hagain, -⟩ := hasPass_succ.mp (h 1)
      exact ⟨s', hagain⟩
  | cons now later ih =>
    rw [markPasses_cons_endless]
    constructor
    · rintro ⟨s', hagain, hendless⟩ n
      cases n with
      | zero =>
        obtain ⟨live, hlive, -⟩ := again?_eq_some.mp hagain
        exact ⟨s, live, rfl, hlive⟩
      | succ n => exact hasPass_succ.mpr ⟨s', hagain, (ih s').mp hendless n⟩
    · intro h
      obtain ⟨s', hagain, -⟩ := hasPass_succ.mp (h 1)
      refine ⟨s', hagain, (ih s').mpr fun n => ?_⟩
      obtain ⟨s'', hagain', hlater⟩ := hasPass_succ.mp (h (n + 1))
      obtain rfl : s' = s'' := Option.some.inj (hagain.symm.trans hagain')
      exact hlater

/-! ## What may have become of a tracker -/

/-- `s` may have become of `started`, and the maps of the given numbers were retired by hand.  Whoever
holds a map may mark blocks on it and may retire it, beside what is asked of the tracker. -/
inductive Reached (started : Tracking) : (retired : List MapId) → Tracking → Prop
  | begin : Reached started [] started
  | action {retired : List MapId} {s : Tracking} (h : Reached started retired s) (a : Action) :
      Reached started retired (s.step a)
  | markHeld {retired : List MapId} {s : Tracking} (h : Reached started retired s) (id : MapId)
      (b : Block) (l : Lsn) :
      Reached started retired (s.withHost (s.host.updateMap id (·.mark b l)))
  | retireHeld {retired : List MapId} {s : Tracking} (h : Reached started retired s) (id : MapId)
      (hid : id < s.host.maps.size) :
      Reached started (id :: retired) (s.withHost (s.host.updateMap id .retire))

/-- What is known about the maps if those of the given numbers were retired by hand. -/
structure Kept (retired : List MapId) (s : Tracking) : Prop where
  coherent : s.Coherent
  /-- The live map is valid, or somebody has retired it. -/
  live : ∀ id, s.live? = some id → (s.host.map id).valid = true ∨ id ∈ retired
  /-- What was retired stays so. -/
  gone : ∀ id ∈ retired, id < s.host.maps.size ∧ (s.host.map id).valid = false

/-- The live map of `s'` is valid, or it is that of `s` still and no map is less valid or more. -/
def Renews (s s' : Tracking) : Prop :=
  s'.LiveValid ∨ s'.live? = s.live? ∧ ∀ id, (s'.host.map id).valid = (s.host.map id).valid

lemma Renews.refl (s : Tracking) : s.Renews s := .inr ⟨rfl, fun _ => rfl⟩

lemma Renews.trans (h : s.Renews s') (h' : s'.Renews s'') : s.Renews s'' := by
  rcases h' with hvalid' | ⟨hlive', hsame'⟩
  · exact .inl hvalid'
  · rcases h with hvalid | ⟨hlive, hsame⟩
    · left
      intro id hid
      rw [hsame']
      exact hvalid id (hlive' ▸ hid)
    · exact .inr ⟨hlive'.trans hlive, fun id => (hsame' id).trans (hsame id)⟩

lemma renews_interrupt (s : Tracking) (e : Interruption) : s.Renews (s.interrupt e) := by
  rcases s.interrupts_cases [e] with ⟨-, hsame⟩ | ⟨-, hvalid⟩
  · rw [List.foldl_cons, List.foldl_nil] at hsame
    rw [hsame]
    exact .refl s
  · exact .inl hvalid

lemma renews_markAll (s : Tracking) (id : MapId) (marks : List (Block × Lsn)) :
    s.Renews (s.withHost (s.host.updateMap id (·.markAll marks))) :=
  .inr ⟨rfl, s.valid_markHeld id marks⟩

/-- Every action renews what it finds, or leaves it. -/
lemma renews_step (s : Tracking) (a : Action) : s.Renews (s.step a) := by
  cases a with
  | mark b l =>
    show s.Renews (s.mark b l)
    cases hlive : s.live? with
    | none => rw [mark_eq_self hlive]; exact .refl s
    | some live => rw [mark_eq hlive]; exact s.renews_markAll live _
  | markDirectory root events =>
    exact markDirectory_invariant (P := s.Renews) (fun s' e h => h.trans (s'.renews_interrupt e))
      (fun s' id marks h => h.trans (s'.renews_markAll id marks)) (.refl s) root events
  | replaceMap bytes => exact s.renews_interrupt (.replaceMap bytes)
  | stop => exact s.renews_interrupt .stop
  | checkpoint =>
    refine .inr ⟨s.live?_checkpoint, fun id => ?_⟩
    show (s.checkpoint.2.host.map id).valid = _
    rw [Host.map, maps_checkpoint, Host.map]
  | scan | advance | changeTree => exact .inr ⟨rfl, fun _ => rfl⟩

section Kept

variable {retired : List MapId} (h : s.Kept retired)

include h

lemma Kept.action (a : Action) : (s.step a).Kept retired where
  coherent := (s.leadsTo_step a).coherent h.coherent
  live id hid := by
    rcases s.renews_step a with hvalid | ⟨hlive, hsame⟩
    · exact .inl (hvalid id hid)
    · rw [hsame]
      exact h.live id (hlive ▸ hid)
  gone id hid := by
    obtain ⟨hsize, hinvalid⟩ := h.gone id hid
    have hstep := s.retiresReplaced_step a
    refine ⟨hsize.trans_le hstep.size, ?_⟩
    rw [← Bool.not_eq_true] at hinvalid ⊢
    exact fun hvalid => hinvalid (hstep.valid id hsize hvalid)

lemma Kept.markHeld (id : MapId) (b : Block) (l : Lsn) :
    (s.withHost (s.host.updateMap id (·.mark b l))).Kept retired := by
  simp only [ChangeMap.mark_eq_markAll]
  refine ⟨(s.leadsTo_markAll id _).coherent h.coherent, fun k hk => ?_, fun k hk => ?_⟩
  · rw [valid_markHeld]
    exact h.live k hk
  · rw [valid_markHeld]
    simpa using h.gone k hk

lemma Kept.retireHeld {id : MapId} (hid : id < s.host.maps.size) :
    (s.withHost (s.host.updateMap id .retire)).Kept (id :: retired) where
  coherent live hlive := by simpa using h.coherent live hlive
  live k hk := by
    rw [host_withHost, Host.map_updateMap]
    split
    · next hsame => exact .inr (hsame.1 ▸ List.mem_cons_self)
    · exact (h.live k hk).imp_right (List.mem_cons_of_mem id)
  gone k hk := by
    rw [host_withHost, Host.size_updateMap, Host.map_updateMap]
    split
    · next hsame => exact ⟨hsame.1 ▸ hid, rfl⟩
    · next hne =>
      rcases List.mem_cons.mp hk with rfl | hk
      · exact absurd ⟨rfl, hid⟩ hne
      · exact h.gone k hk

end Kept

section Reached

variable {config : Config} {isExempt : Path → Bool} {host : Host} {started : Tracking}
  {retired : List MapId}

lemma Reached.kept (hstart : start config isExempt host = .ok started)
    (h : started.Reached retired s) : s.Kept retired := by
  induction h with
  | begin =>
    have hstarted := (started_of_start hstart).2
    exact ⟨coherent_of_started hstarted, fun id hid => .inl (liveValid_of_started hstarted id hid),
      by simp⟩
  | action _ a ih => exact ih.action a
  | markHeld _ id b l ih => exact ih.markHeld id b l
  | retireHeld _ id hid ih => exact ih.retireHeld hid

lemma Kept.liveValid (h : s.Kept retired) (hlive : ∀ id ∈ retired, s.live? ≠ some id) :
    s.LiveValid :=
  fun id hid => (h.live id hid).resolve_right fun hretired => hlive id hretired hid

/-- **A directory is marked without end only on a map that was retired by hand.**  Take a tracker at
any moment since it was started, where some maps may have been retired by who held them.

The call does not return if and only if the directory is not exempt, the live map is one of those, and
no interruption gives the tracker another map or stops it; there is a pass of every number then, and
only then.  If the live map is none of those, there is an interruption with such an effect in each
pass that is followed by another, so there is at most one pass more than there are such
interruptions. -/
theorem markDirectory_endless_iff (hstart : start config isExempt host = .ok started)
    (h : started.Reached retired s) (root : Walk.Root) (events : List (List Interruption)) :
    ((s.markDirectory root events).1 = .endless ↔
      s.tracker.isExempt root.path = false ∧ (∃ id ∈ retired, s.live? = some id) ∧
        ∀ now ∈ events, ∀ e ∈ now, ¬ e.Effective) ∧
    ((s.markDirectory root events).1 = .endless ↔
      s.tracker.isExempt root.path = false ∧ ∀ n, s.HasPass root (scheduled events) n) ∧
    ((∀ id ∈ retired, s.live? ≠ some id) → ∀ (during : ℕ → List Interruption) (n : ℕ),
      (s.HasPass root during (n + 1) → ∃ e ∈ during n, e.Effective) ∧
      (s.HasPass root during n → n ≤ effectiveBefore during n)) := by
  have hkept := h.kept hstart
  have hpasses : (s.markDirectory root events).1 = .endless ↔
      s.tracker.isExempt root.path = false ∧ ∀ n, s.HasPass root (scheduled events) n := by
    rw [← markPasses_endless_iff, markDirectory]
    cases s.tracker.isExempt root.path <;> simp
  refine ⟨?_, hpasses, fun hlive during n => ?_⟩
  · rw [hpasses]
    refine and_congr_right fun _ => ⟨fun hall => ⟨?_, quiet_of_hasPass hall⟩, ?_⟩
    · by_contra hnone
      have hvalid : s.LiveValid :=
        hkept.liveValid fun id hid hlive => hnone ⟨id, hid, hlive⟩
      obtain ⟨e, he, -⟩ := (hall (events.length + 1)).exists_effective hvalid
      rw [scheduled, List.getD_eq_default _ _ le_rfl] at he
      cases he
    · rintro ⟨⟨id, hid, hlive⟩, hquiet⟩ n
      apply hasPass_of_spoilt hlive (hkept.gone id hid).2
      intro i _ e he
      by_cases hi : i < events.length
      · rw [scheduled, List.getD_eq_getElem _ _ hi] at he
        exact hquiet _ (List.getElem_mem hi) e he
      · rw [scheduled, List.getD_eq_default _ _ (Nat.le_of_not_lt hi)] at he
        cases he
  · have hvalid := hkept.liveValid hlive
    exact ⟨fun hpass => hpass.exists_effective hvalid, fun hpass => hpass.le_effectiveBefore hvalid⟩

end Reached

/-- A tracker whose first map was retired by hand, and replaced after that. -/
theorem markDirectory_endless_iff_replaced :
    ∃ started s, start ⟨⟨"data"⟩, 8, "v1", none⟩ exemptNone ⟨.empty, ⟨100⟩, #[]⟩ = .ok started ∧
      started.Reached [0] s ∧ s.live? = some 1 ∧
      ∀ root, (s.markDirectory root []).1 ≠ .endless ∧
        ∀ n, s.HasPass root (scheduled [[.stop]]) n → n ≤ 1 := by
  obtain ⟨started, hstart, hsize, hlive⟩ :
      ∃ started, start ⟨⟨"data"⟩, 8, "v1", none⟩ exemptNone ⟨.empty, ⟨100⟩, #[]⟩ = .ok started ∧
        0 < started.host.maps.size ∧
        ((started.withHost (started.host.updateMap 0 .retire)).step (.replaceMap 8)).live?
          = some 1 := ⟨_, rfl, by decide, rfl⟩
  have hreached := ((Reached.begin : started.Reached [] started).retireHeld 0 hsize).action
    (.replaceMap 8)
  refine ⟨started, _, hstart, hreached, hlive, fun root => ?_⟩
  obtain ⟨hends, -, hpasses⟩ := markDirectory_endless_iff hstart hreached root []
  have hother : ∀ id ∈ [0], ((started.withHost (started.host.updateMap 0 .retire)).step
      (.replaceMap 8)).live? ≠ some id := by
    rw [hlive]
    decide
  constructor
  · rw [Ne, hends]
    rintro ⟨-, ⟨id, hid, hsame⟩, -⟩
    exact hother id hid hsame
  · intro n hn
    by_contra hlate
    obtain ⟨n, rfl⟩ := Nat.exists_eq_add_of_le' (Nat.lt_of_not_le hlate)
    obtain ⟨e, he, -⟩ := (hpasses hother (scheduled [[.stop]]) (n + 1)).1 hn
    rw [scheduled, List.getD_eq_default _ _ (by simp)] at he
    cases he

/-- A map that is retired by hand while it is live is marked for ever: there is a pass of every
number, although nothing happens during the passes. -/
theorem markDirectory_endless_retired :
    ∃ started s, start ⟨⟨"data"⟩, 8, "v1", none⟩ exemptNone ⟨.empty, ⟨100⟩, #[]⟩ = .ok started ∧
      started.Reached [0] s ∧
      (∀ n, s.HasPass ⟨⟨"data/base/5"⟩, ⟨defaultTablespace, 5⟩⟩ (scheduled []) n) ∧
      (s.markDirectory ⟨⟨"data/base/5"⟩, ⟨defaultTablespace, 5⟩⟩ []).1 = .endless := by
  obtain ⟨started, hstart, hlive, hsize, hexempt⟩ :
      ∃ started, start ⟨⟨"data"⟩, 8, "v1", none⟩ exemptNone ⟨.empty, ⟨100⟩, #[]⟩ = .ok started ∧
        started.live? = some 0 ∧ 0 < started.host.maps.size ∧
        started.tracker.isExempt = exemptNone := ⟨_, rfl, rfl, by decide, rfl⟩
  have hreached := (Reached.begin : started.Reached [] started).retireHeld 0 hsize
  obtain ⟨s, hs⟩ : ∃ s, s = started.withHost (started.host.updateMap 0 .retire) := ⟨_, rfl⟩
  have hinvalid : (s.host.map 0).valid = false := by
    rw [hs, host_withHost, Host.map_updateMap_self hsize]
    rfl
  have hall : ∀ n, s.HasPass ⟨⟨"data/base/5"⟩, ⟨defaultTablespace, 5⟩⟩ (scheduled []) n := by
    intro n
    apply hasPass_of_spoilt (hs ▸ hlive) hinvalid
    simp [scheduled]
  refine ⟨started, s, hstart, hs ▸ hreached, hall, ?_⟩
  have hexempt' : s.tracker.isExempt ⟨"data/base/5"⟩ = false := by
    rw [hs, tracker_withHost, hexempt]
    rfl
  rw [markDirectory, hexempt']
  exact (markPasses_endless_iff _ _ _).mpr hall

end Tracking

end ChangeTracking
