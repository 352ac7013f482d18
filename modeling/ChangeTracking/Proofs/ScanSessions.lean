import ChangeTracking.Proofs.Replacement
import ChangeTracking.Proofs.Scanning

/-!
# Scans while the tracker goes on

A scan is asked for one answer after the other, and anything may happen to the tracker and to the
tree between two answers.  A `ScanSession` is a tracker with a scan that was opened on it, and
`ScanSession.answers` are the scan's answers while a list of events takes its course.

The scan's map is valid just as long as it is live (`ScanSession.Heeds`), the scan looks at the map
before each file, and a scan that has come to its end stays there.  So its answers are pagemaps, and
after them nothing or, if the map was replaced, a single error (`ScanSession.Stands`,
`answers_run`).  From the replacement on there are no pagemaps, and a scan that was not at its end
by then does answer with the error (`answers_spec`).
-/

namespace ChangeTracking

namespace Scan

variable {t : Tree} {m : ChangeMap} {s : Scan}

/-! ## One answer -/

lemma next_of_finished (hs : s.finished = true) : s.next t m = (none, s) := by
  rw [next, if_pos hs]

lemma next_of_retired (hs : s.finished = false) (hm : m.valid = false) :
    s.next t m = (some (.error .disabled), s.finish) := by
  rw [next, if_neg (by simp [hs]), if_pos (by simp [hm])]

/-- A scan of a valid map yields a pagemap and goes on, or comes to its end. -/
lemma next_of_valid (hs : s.finished = false) (hm : m.valid = true) :
    (∃ pagemap s', s.next t m = (some (.ok pagemap), s') ∧ s'.finished = false) ∨
      ∃ s', s.next t m = (none, s') ∧ s'.finished = true := by
  fun_induction next t m s with
  | case1 s hfinished => simp [hs] at hfinished
  | case2 s _ hinvalid => simp [hm] at hinvalid
  | case3 s _ _ _ => exact .inr ⟨s.finish, rfl, rfl⟩
  | case4 s _ _ segment walker _ offsets stats _ ih => exact ih hs
  | case5 s _ _ segment walker _ offsets stats _ blocks => exact .inl ⟨_, _, rfl, hs⟩

end Scan

/-- An answer of a scan: a pagemap, an error, or nothing any more. -/
abbrev ScanAnswer := Option (Except Error Pagemap)

/-- What may happen while a scan is open. -/
inductive ScanEvent
  /-- The scan is asked for its next answer. -/
  | pull
  /-- Something happens to the tracker or around it. -/
  | act (a : Action)
  /-- Marks reach a map, live or not, as some of them do while a directory is still being marked. -/
  | marks (id : MapId) (marks : List (Block × Lsn))

/-- A tracker, and a scan that was opened on it. -/
structure ScanSession where
  tracking : Tracking
  scan : OpenScan

namespace ScanSession

variable {x : ScanSession}

/-- The map that the scan asks, as it is now. -/
def map (x : ScanSession) : ChangeMap := x.tracking.host.map x.scan.map

/-- The session after an event. -/
def step (x : ScanSession) : ScanEvent → ScanSession
  | .pull => { x with scan := (x.scan.next x.tracking.host).2 }
  | .act a => { x with tracking := x.tracking.step a }
  | .marks id marks =>
    { x with tracking := x.tracking.withHost (x.tracking.host.updateMap id (·.markAll marks)) }

/-- The session after some events. -/
def run (x : ScanSession) (events : List ScanEvent) : ScanSession := events.foldl step x

/-- The answers of the scan during some events. -/
def answers (x : ScanSession) : List ScanEvent → List ScanAnswer
  | [] => []
  | .pull :: rest => (x.scan.next x.tracking.host).1 :: (x.step .pull).answers rest
  | .act a :: rest => (x.step (.act a)).answers rest
  | .marks id marks :: rest => (x.step (.marks id marks)).answers rest

lemma answers_pull {answer : ScanAnswer} {s : Scan}
    (hnext : x.scan.scan.next x.tracking.host.tree x.map = (answer, s)) (rest : List ScanEvent) :
    x.answers (.pull :: rest) = answer :: (x.step .pull).answers rest :=
  congrArg (fun r : ScanAnswer × Scan => r.1 :: (x.step .pull).answers rest) hnext

lemma scan_pull {answer : ScanAnswer} {s : Scan}
    (hnext : x.scan.scan.next x.tracking.host.tree x.map = (answer, s)) :
    (x.step .pull).scan.scan = s :=
  congrArg Prod.snd hnext

lemma answers_append (x : ScanSession) (first second : List ScanEvent) :
    x.answers (first ++ second) = x.answers first ++ (x.run first).answers second := by
  induction first generalizing x with
  | nil => rfl
  | cons e rest ih =>
    cases e with
    | pull => exact congrArg (_ :: ·) (ih (x.step .pull))
    | act | marks => exact ih _

/-! ## The map of the scan -/

/-- The scan's map is one that the host keeps, and it is valid just if it is live. -/
structure Heeds (x : ScanSession) : Prop where
  kept : x.scan.map < x.tracking.host.maps.size
  live : x.map.valid = true → x.tracking.live? = some x.scan.map
  liveValid : x.tracking.LiveValid

lemma map_step (x : ScanSession) (e : ScanEvent) : (x.step e).scan.map = x.scan.map := by
  cases e <;> rfl

lemma map_run (x : ScanSession) (events : List ScanEvent) :
    (x.run events).scan.map = x.scan.map := by
  induction events generalizing x with
  | nil => rfl
  | cons e rest ih => exact (ih (x.step e)).trans (x.map_step e)

lemma retiresReplaced_step (x : ScanSession) (e : ScanEvent) :
    x.tracking.RetiresReplaced (x.step e).tracking := by
  cases e with
  | pull => exact .refl x.tracking
  | act a => exact x.tracking.retiresReplaced_step a
  | marks id marks => exact x.tracking.retiresReplaced_markAll id marks

lemma Heeds.step (h : x.Heeds) (e : ScanEvent) : (x.step e).Heeds := by
  have hstep := x.retiresReplaced_step e
  refine ⟨?_, ?_, hstep.liveValid h.liveValid⟩
  · rw [map_step]
    exact h.kept.trans_le hstep.size
  · rw [map, map_step]
    intro hvalid
    exact hstep.live _ h.kept hvalid (h.live (hstep.valid _ h.kept hvalid))

lemma Heeds.run (h : x.Heeds) (events : List ScanEvent) : (x.run events).Heeds := by
  induction events generalizing x with
  | nil => exact h
  | cons e rest ih => exact ih (h.step e)

/-- A map that was retired stays so. -/
lemma Heeds.retired_step (h : x.Heeds) (hretired : x.map.valid = false) (e : ScanEvent) :
    (x.step e).map.valid = false := by
  rw [map, map_step]
  by_contra hvalid
  have hwas := (x.retiresReplaced_step e).valid _ h.kept (Bool.not_eq_false _ ▸ hvalid)
  exact Bool.false_ne_true (hretired.symm.trans hwas)

lemma Heeds.retired_run (h : x.Heeds) (hretired : x.map.valid = false) (events : List ScanEvent) :
    (x.run events).map.valid = false := by
  induction events generalizing x with
  | nil => exact hretired
  | cons e rest ih => exact ih (h.step e) (h.retired_step hretired e)

lemma Heeds.not_live (h : x.Heeds) (hretired : x.map.valid = false) :
    x.tracking.live? ≠ some x.scan.map :=
  fun hlive => Bool.false_ne_true (hretired.symm.trans (h.liveValid _ hlive))

/-! ## All answers -/

/-- Pagemaps, one answer each. -/
def yields (pagemaps : List Pagemap) : List ScanAnswer := pagemaps.map fun p => some (.ok p)

lemma yields_append (first second : List Pagemap) :
    yields (first ++ second) = yields first ++ yields second := List.map_append

/-- Pagemaps, and then nothing any more. -/
def EndsQuietly (answers : List ScanAnswer) : Prop :=
  ∃ pagemaps n, answers = yields pagemaps ++ List.replicate n none

/-- Pagemaps, then the one error that says that the map was replaced, and then nothing any more. -/
def EndsInError (answers : List ScanAnswer) : Prop :=
  ∃ pagemaps n, answers = yields pagemaps ++ some (.error .disabled) :: List.replicate n none

/-- A scan that has come to its end stays there. -/
lemma finished_run (hfinished : x.scan.scan.finished = true) (events : List ScanEvent) :
    (x.run events).scan.scan.finished = true := by
  induction events generalizing x with
  | nil => exact hfinished
  | cons e rest ih =>
    cases e with
    | pull => exact ih (scan_pull (Scan.next_of_finished hfinished) ▸ hfinished)
    | act | marks => exact ih hfinished

/-- A scan that has come to its end answers nothing any more. -/
lemma answers_of_finished (hfinished : x.scan.scan.finished = true) (events : List ScanEvent) :
    ∃ n, x.answers events = List.replicate n none := by
  induction events generalizing x with
  | nil => exact ⟨0, rfl⟩
  | cons e rest ih =>
    cases e with
    | pull =>
      have hnext := Scan.next_of_finished (t := x.tracking.host.tree) (m := x.map) hfinished
      obtain ⟨n, hn⟩ := ih (scan_pull hnext ▸ hfinished)
      exact ⟨n + 1, by rw [answers_pull hnext, hn, List.replicate_succ]⟩
    | act | marks => exact ih hfinished

/-- A scan whose map was replaced answers with the error, once it is asked. -/
lemma answers_of_retired (h : x.Heeds) (hretired : x.map.valid = false)
    (hfinished : x.scan.scan.finished = false) (events : List ScanEvent) :
    (.pull ∉ events ∧ x.answers events = []) ∨
      ∃ n, x.answers events = some (.error .disabled) :: List.replicate n none := by
  induction events generalizing x with
  | nil => exact .inl ⟨List.not_mem_nil, rfl⟩
  | cons e rest ih =>
    cases e with
    | pull =>
      have hnext := Scan.next_of_retired (t := x.tracking.host.tree) hfinished hretired
      obtain ⟨n, hn⟩ := answers_of_finished (congrArg Scan.finished (scan_pull hnext)) rest
      exact .inr ⟨n, by rw [answers_pull hnext, hn]⟩
    | act a =>
      have hthen := ih (h.step (.act a)) (h.retired_step hretired (.act a)) hfinished
      simpa [answers] using hthen
    | marks id marks =>
      have hthen := ih (h.step (.marks id marks)) (h.retired_step hretired _) hfinished
      simpa [answers] using hthen

/-- What a scan may have come to after some events. -/
inductive Stands (x : ScanSession) (events : List ScanEvent) : Prop
  /-- The scan has yielded pagemaps and goes on. -/
  | goesOn (pagemaps : List Pagemap) (hrun : (x.run events).scan.scan.finished = false)
      (h : x.answers events = yields pagemaps)
  /-- The scan has answered nothing, and is at its end. -/
  | ended (pagemaps : List Pagemap) (n : Nat) (hrun : (x.run events).scan.scan.finished = true)
      (h : x.answers events = yields pagemaps ++ List.replicate (n + 1) none)
  /-- The map was replaced and the scan has said so, and is at its end. -/
  | failed (pagemaps : List Pagemap) (n : Nat) (hrun : (x.run events).scan.scan.finished = true)
      (hretired : (x.run events).map.valid = false)
      (h : x.answers events = yields pagemaps ++ some (.error .disabled) :: List.replicate n none)

/-- A scan stands as it does one event later, with what it yielded at that event. -/
lemma Stands.cons {e : ScanEvent} {rest : List ScanEvent} (h : (x.step e).Stands rest)
    (first : List Pagemap)
    (hfirst : x.answers (e :: rest) = yields first ++ (x.step e).answers rest) :
    x.Stands (e :: rest) := by
  cases h with
  | goesOn pagemaps hrun h =>
    refine .goesOn (first ++ pagemaps) hrun ?_
    rw [hfirst, h, yields_append]
  | ended pagemaps n hrun h =>
    refine .ended (first ++ pagemaps) n hrun ?_
    rw [hfirst, h, yields_append, List.append_assoc]
  | failed pagemaps n hrun hretired h =>
    refine .failed (first ++ pagemaps) n hrun hretired ?_
    rw [hfirst, h, yields_append, List.append_assoc]

/-- As long as a scan goes on its answers are pagemaps, and it comes to its end by answering nothing
or, if its map was replaced, with the error. -/
lemma answers_run (h : x.Heeds) (hfinished : x.scan.scan.finished = false)
    (events : List ScanEvent) : x.Stands events := by
  induction events generalizing x with
  | nil => exact .goesOn [] hfinished rfl
  | cons e rest ih =>
    cases e with
    | act a => exact (ih (h.step (.act a)) hfinished).cons [] rfl
    | marks id marks => exact (ih (h.step (.marks id marks)) hfinished).cons [] rfl
    | pull =>
      cases hvalid : x.map.valid with
      | false =>
        have hnext := Scan.next_of_retired (t := x.tracking.host.tree) hfinished hvalid
        have hends := congrArg Scan.finished (scan_pull hnext)
        obtain ⟨n, hn⟩ := answers_of_finished hends rest
        exact .failed [] n (finished_run hends rest) (h.retired_run hvalid (.pull :: rest))
          (by rw [answers_pull hnext, hn]; rfl)
      | true =>
        rcases Scan.next_of_valid (t := x.tracking.host.tree) hfinished hvalid with
          ⟨pagemap, s, hnext, hgoes⟩ | ⟨s, hnext, hends⟩
        · exact (ih (h.step .pull) (scan_pull hnext ▸ hgoes)).cons [pagemap]
            (answers_pull hnext rest)
        · have hends : (x.step .pull).scan.scan.finished = true := scan_pull hnext ▸ hends
          obtain ⟨n, hn⟩ := answers_of_finished hends rest
          exact .ended [] n (finished_run hends rest) (by rw [answers_pull hnext, hn]; rfl)

/-! ## Scans of a started tracker -/

section Opened

variable {config : Config} {isExempt : Path → Bool} {host : Host} {s : Tracking} {baseline : Lsn}

lemma unfinished_of_openScan (hopen : x.tracking.openScan baseline = .ok x.scan) :
    x.scan.scan.finished = false := by
  unfold Tracking.openScan at hopen
  split at hopen
  · rw [← Except.ok.inj hopen]
    rfl
  · cases hopen

lemma heeds_of_openScan (hkept : x.tracking.Coherent) (hvalid : x.tracking.LiveValid)
    (hopen : x.tracking.openScan baseline = .ok x.scan) : x.Heeds := by
  unfold Tracking.openScan at hopen
  split at hopen
  · next live hlive =>
    have hmap : live = x.scan.map := congrArg OpenScan.map (Except.ok.inj hopen)
    subst hmap
    exact ⟨hkept _ hlive, fun _ => hlive, hvalid⟩
  · cases hopen

/-- What a scan answers after its map was replaced: no pagemap, and the error if nobody was told
before that the scan is at its end. -/
lemma answers_of_replaced (h : x.Heeds) (hfinished : x.scan.scan.finished = false)
    {before after : List ScanEvent} {a : Action} (ha : (x.run before).tracking.Replaces a) :
    (∀ pagemap, some (.ok pagemap) ∉ ((x.run before).step (.act a)).answers after) ∧
      (none ∉ x.answers before → .pull ∈ after →
        EndsInError (x.answers (before ++ .act a :: after))) := by
  have hthen := h.run before
  have hretired : ((x.run before).step (.act a)).map.valid = false :=
    Tracking.retired_of_replaces ha hthen.kept hthen.live
  rw [answers_append]
  change _ ∧ (_ → _ → EndsInError (_ ++ ((x.run before).step (.act a)).answers after))
  cases answers_run h hfinished before with
  | goesOn pagemaps hrun hbefore =>
    rcases answers_of_retired (hthen.step (.act a)) hretired hrun after with
      ⟨hpull, hafter⟩ | ⟨n, hafter⟩
    · rw [hafter]
      exact ⟨fun _ => List.not_mem_nil, fun _ h => absurd h hpull⟩
    · rw [hafter, hbefore]
      exact ⟨fun _ => by simp, fun _ _ => ⟨pagemaps, n, rfl⟩⟩
  | ended pagemaps n hrun hbefore =>
    obtain ⟨k, hafter⟩ := answers_of_finished (x := (x.run before).step (.act a)) hrun after
    rw [hafter, hbefore]
    exact ⟨fun _ => by simp, fun hnone => by simp at hnone⟩
  | failed pagemaps n hrun _ hbefore =>
    obtain ⟨k, hafter⟩ := answers_of_finished (x := (x.run before).step (.act a)) hrun after
    rw [hafter, hbefore]
    refine ⟨fun _ => by simp, fun _ _ => ⟨pagemaps, n + k, ?_⟩⟩
    rw [List.append_assoc, List.cons_append, List.replicate_append_replicate]

/-- **Scans do not pass off a replaced map.**  The answers of a scan that was opened on a tracker,
whatever happens meanwhile, are pagemaps and then nothing any more, with an error in between only if
the map was replaced.  From a replacement on there are no pagemaps, and the scan does end with the
error if nobody was told before that it is at its end and it is asked again. -/
theorem answers_spec (hstart : Tracking.start config isExempt host = .ok s)
    {earlier : List Action} (hx : x.tracking = s.run earlier)
    (hopen : x.tracking.openScan baseline = .ok x.scan) (events : List ScanEvent) :
    (EndsQuietly (x.answers events) ∨
        EndsInError (x.answers events) ∧ (x.run events).tracking.live? ≠ some x.scan.map) ∧
      ∀ before a after, events = before ++ .act a :: after →
        (x.run before).tracking.Replaces a →
        (∀ pagemap, some (.ok pagemap) ∉ ((x.run before).step (.act a)).answers after) ∧
          (none ∉ x.answers before → .pull ∈ after → EndsInError (x.answers events)) := by
  have hstarted := (Tracking.started_of_start hstart).2
  have hfinished := unfinished_of_openScan hopen
  have hkept : x.tracking.Coherent :=
    hx ▸ (s.leadsTo_run earlier).coherent (Tracking.coherent_of_started hstarted)
  have hvalid : x.tracking.LiveValid :=
    hx ▸ (s.retiresReplaced_run earlier).liveValid (Tracking.liveValid_of_started hstarted)
  have hheeds := heeds_of_openScan hkept hvalid hopen
  constructor
  · cases answers_run hheeds hfinished events with
    | goesOn pagemaps _ h =>
      exact .inl ⟨pagemaps, 0, by rw [h, List.replicate_zero, List.append_nil]⟩
    | ended pagemaps n _ h => exact .inl ⟨pagemaps, n + 1, h⟩
    | failed pagemaps n _ hretired h =>
      have hnot := (hheeds.run events).not_live hretired
      rw [map_run] at hnot
      exact .inr ⟨⟨pagemaps, n, h⟩, hnot⟩
  · rintro before a after rfl ha
    exact answers_of_replaced hheeds hfinished ha

/-- A map that is replaced before its scan is asked for the first time. -/
theorem answers_spec_replaced_first :
    ∃ s o, Tracking.start ⟨⟨"d"⟩, 8, "v1", none⟩ exemptNone ⟨.empty, ⟨50⟩, #[]⟩ = .ok s ∧
      (s.run []).openScan ⟨0⟩ = .ok o ∧
      EndsInError (answers ⟨s.run [], o⟩ [.act (.replaceMap 16), .pull, .pull]) := by
  obtain ⟨s, hstart, o, hopen, hreplaced⟩ :
      ∃ s, Tracking.start ⟨⟨"d"⟩, 8, "v1", none⟩ exemptNone ⟨.empty, ⟨50⟩, #[]⟩ = .ok s ∧
        ∃ o, (s.run []).openScan ⟨0⟩ = .ok o ∧ (s.run []).Replaces (.replaceMap 16) :=
    ⟨_, rfl, _, rfl, _, rfl⟩
  refine ⟨s, o, hstart, hopen, ?_⟩
  exact ((answers_spec (x := ⟨s.run [], o⟩) hstart rfl hopen
    [.act (.replaceMap 16), .pull, .pull]).2 [] _ _ rfl hreplaced).2 (by simp [answers]) (by simp)

end Opened

end ScanSession

end ChangeTracking
