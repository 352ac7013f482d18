import ChangeTracking.Proofs.BulkMarks
import ChangeTracking.Proofs.ScanSessions
import ChangeTracking.Proofs.TreeGrowth
import Mathlib.Data.List.ReduceOption

/-!
# Scans while blocks are marked and files grow

A scan takes its time.  It reads a file's size when it comes to the file, and the slots of the
file's blocks right after that.  Slots and sizes only rise, so what counts as changed in a file
(`ChangeMap.Qualifies`) only gets more: the scan reports what counted when it was opened at least,
and what counts in the end at most (`Sandwiched`).

That it comes to every file, once and in order, although its walk is stopped after each pagemap and
goes on in a tree that may be another by then, is what walks keep while files grow
(`Walker.Passes.growsTo`).  `answers_sandwiched` puts both together, by induction on the events: a
pull passes some files and reports on them, and what happens between two pulls leaves the rest of
the way as it is.
-/

namespace ChangeTracking

/-- The block at an offset of a segment file counts as changed since the baseline: a scan asks about
it, and the map has a position for it that is not before the baseline. -/
def ChangeMap.Qualifies (m : ChangeMap) (baseline : Lsn) (f : Segment) (offset : Nat) : Prop :=
  offset ≤ min f.blockCount (blocksPerSegment - 1) ∧ m.read (f.block offset) ≠ Lsn.never ∧
    baseline ≤ m.read (f.block offset)

/-- What is reported on a file, if anything is: `f` and `m` are the file and the map when the scan
is opened, `f'` and `m'` what became of them. -/
structure Sandwiched (m m' : ChangeMap) (baseline : Lsn) (f f' : Segment)
    (report : Option Pagemap) : Prop where
  grows : f.GrowsTo f'
  path : ∀ pagemap ∈ report, pagemap.path = f.relativePath
  lower : ∀ offset, m.Qualifies baseline f offset →
    ∃ pagemap ∈ report, pagemap.blocks.contains offset = true
  upper : ∀ offset, ∀ pagemap ∈ report, pagemap.blocks.contains offset = true →
    m'.Qualifies baseline f' offset

/-- Reports on the first of the files, in their order. -/
inductive Reports (m m' : ChangeMap) (baseline : Lsn) :
    List Segment → List Segment → List (Option Pagemap) → Prop
  | nil (files files' : List Segment) : Reports m m' baseline files files' []
  | cons {f f' : Segment} {report : Option Pagemap} {files files' : List Segment}
      {reports : List (Option Pagemap)} (hfirst : Sandwiched m m' baseline f f' report)
      (hrest : Reports m m' baseline files files' reports) :
      Reports m m' baseline (f :: files) (f' :: files') (report :: reports)

section Bounds

variable {m m' m₀ : ChangeMap} {baseline : Lsn} {f f' f₀ : Segment} {offset : Nat}

lemma ChangeMap.Qualifies.mono (h : m.Qualifies baseline f offset) (hm : m.GrowsTo m')
    (hf : f.GrowsTo f') : m'.Qualifies baseline f' offset := by
  obtain ⟨hoffset, hknown, hle⟩ := h
  have hblock : f'.block offset = f.block offset := by
    rw [hf.same]
    rfl
  have hcount : f.blockCount ≤ f'.blockCount := by
    have hdiv := Nat.div_le_div_right (c := blockSize) hf.size
    unfold Segment.blockCount
    omega
  have hread := hm.read_le (f.block offset)
  refine ⟨by omega, ?_, ?_⟩
  · rw [hblock]
    exact Lsn.known_iff.mp (Lsn.known_of_le (Lsn.known_iff.mpr hknown) hread)
  · rw [hblock]
    exact hle.trans hread

/-- A file that a scan comes to is reported as it is at that moment. -/
lemma sandwiched_pagemap? (hm : m.GrowsTo m') (hf : f.GrowsTo f') :
    Sandwiched m m' baseline f f' (m.pagemap? baseline f) where
  grows := hf
  path pagemap hpagemap := by
    unfold ChangeMap.pagemap? at hpagemap
    split at hpagemap
    · cases hpagemap
    · cases hpagemap
      rfl
  lower offset h := by
    obtain ⟨pagemap, hpagemap, -, hcontains⟩ :=
      ChangeMap.exists_pagemap (ChangeMap.mem_changedOffsets.mpr h)
    exact ⟨pagemap, hpagemap, hcontains⟩
  upper offset pagemap hpagemap hcontains := by
    unfold ChangeMap.pagemap? at hpagemap
    split at hpagemap
    · cases hpagemap
    · cases hpagemap
      have hchanged := ChangeMap.mem_changedOffsets.mp ((Bitmap.contains_ofList _ _).mp hcontains)
      exact ChangeMap.Qualifies.mono hchanged hm hf

/-- A scan that was opened earlier reports no less than what counted then. -/
lemma Sandwiched.reopen {report : Option Pagemap} (h : Sandwiched m m' baseline f f' report)
    (hm : m₀.GrowsTo m) (hf : f₀.GrowsTo f) : Sandwiched m₀ m' baseline f₀ f' report where
  grows := hf.trans h.grows
  path pagemap hpagemap := by
    rw [h.path pagemap hpagemap, hf.same]
  lower offset hoffset := h.lower offset (hoffset.mono hm hf)
  upper := h.upper

namespace Reports

variable {files files' files₀ : List Segment} {reports : List (Option Pagemap)}

lemma reopen (h : Reports m m' baseline files files' reports) (hm : m₀.GrowsTo m)
    (hfiles : List.Forall₂ Segment.GrowsTo files₀ files) :
    Reports m₀ m' baseline files₀ files' reports := by
  induction h generalizing files₀ with
  | nil files files' => exact .nil _ _
  | cons hfirst _ ih =>
    cases hfiles with
    | cons hf hrest => exact .cons (hfirst.reopen hm hf) (ih hrest)

/-- Reports on the files that are passed, and then on the others. -/
lemma append {passed passed' : List Segment} (h : Reports m m' baseline files files' reports)
    (hm : m.GrowsTo m') (hpassed : List.Forall₂ Segment.GrowsTo passed passed') :
    Reports m m' baseline (passed ++ files) (passed' ++ files')
      (passed.map (m.pagemap? baseline) ++ reports) := by
  induction hpassed with
  | nil => exact h
  | cons hf _ ih => exact .cons (sandwiched_pagemap? hm hf) ih

/-- Reports on the files that are passed. -/
lemma of_passed {passed passed' : List Segment} (hm : m.GrowsTo m')
    (hpassed : List.Forall₂ Segment.GrowsTo passed passed') :
    Reports m m' baseline (passed ++ files) (passed' ++ files')
      (passed.map (m.pagemap? baseline)) := by
  have hnone : Reports m m' baseline files files' [] := .nil files files'
  rw [← List.append_nil (passed.map (m.pagemap? baseline))]
  exact hnone.append hm hpassed

lemma sandwiched (h : Reports m m' baseline files files' reports) {i : Nat}
    {report : Option Pagemap} (hi : reports[i]? = some report) :
    ∃ f f', files[i]? = some f ∧ files'[i]? = some f' ∧
      Sandwiched m m' baseline f f' report := by
  induction h generalizing i with
  | nil files files' => simp at hi
  | @cons f f' first files files' reports hfirst _ ih =>
    cases i with
    | zero =>
      rw [List.getElem?_cons_zero, Option.some.injEq] at hi
      exact ⟨f, f', rfl, rfl, hi ▸ hfirst⟩
    | succ i => exact ih hi

lemma length_le (h : Reports m m' baseline files files' reports) :
    reports.length ≤ files.length := by
  induction h with
  | nil files files' => exact Nat.zero_le _
  | cons _ _ ih => exact Nat.succ_le_succ ih

end Reports

end Bounds

/-! ## Pulls -/

/-- A pull passes files and answers with the pagemap of the last of them, as the only one that has
one, or passes all files that are left, and none of them has one. -/
lemma Scan.next_passes {t : Tree} {m : ChangeMap} {s : Scan} (hvalid : m.valid = true)
    (hs : s.finished = false) :
    ∃ files w, s.walker.Passes t files w ∧
      ((∃ pagemap s', s.next t m = (some (.ok pagemap), s') ∧ s'.walker = w ∧
          s'.baseline = s.baseline ∧ s'.finished = false ∧
          (files.map (m.pagemap? s.baseline)).reduceOption = [pagemap]) ∨
        ∃ s', s.next t m = (none, s') ∧ s'.finished = true ∧ w.segments t = [] ∧
          (files.map (m.pagemap? s.baseline)).reduceOption = []) := by
  fun_induction next t m s with
  | case1 s hfinished => simp [hs] at hfinished
  | case2 s _ hinvalid => simp [hvalid] at hinvalid
  | case3 s _ _ hnext =>
    exact ⟨[], s.walker, .refl _, .inr ⟨s.finish, rfl, rfl, Walker.next_eq_none_iff.mp hnext, rfl⟩⟩
  | case4 s _ _ f walker hnext offsets stats hempty ih =>
    have hnone : m.pagemap? s.baseline f = none := by
      rw [ChangeMap.pagemap?, if_pos hempty]
    obtain ⟨files, w, hpasses, hanswer⟩ := ih hs
    refine ⟨f :: files, w, .step hnext hpasses, ?_⟩
    rw [List.map_cons, hnone, List.reduceOption_cons_of_none]
    exact hanswer
  | case5 s _ _ f walker hnext offsets stats hsome blocks =>
    have hpagemap : m.pagemap? s.baseline f = some ⟨f.relativePath, blocks⟩ := by
      rw [ChangeMap.pagemap?, if_neg hsome]
    refine ⟨[f], walker, .step hnext (.refl walker), .inl ⟨_, _, rfl, rfl, rfl, hs, ?_⟩⟩
    rw [List.map_singleton, hpagemap]
    rfl

namespace ScanSession

variable {x : ScanSession}

/-! ## What happens between pulls -/

lemma leadsTo_step (x : ScanSession) (e : ScanEvent) :
    x.tracking.LeadsTo (x.step e).tracking := by
  cases e with
  | pull => exact .refl x.tracking
  | act a => exact x.tracking.leadsTo_step a
  | marks id marks => exact x.tracking.leadsTo_markAll id marks

lemma leadsTo_run (x : ScanSession) (events : List ScanEvent) :
    x.tracking.LeadsTo (x.run events).tracking := by
  induction events generalizing x with
  | nil => exact .refl x.tracking
  | cons e rest ih => exact (x.leadsTo_step e).trans (ih (x.step e))

lemma retiresReplaced_run (x : ScanSession) (events : List ScanEvent) :
    x.tracking.RetiresReplaced (x.run events).tracking := by
  induction events generalizing x with
  | nil => exact .refl x.tracking
  | cons e rest ih => exact (x.retiresReplaced_step e).trans (ih (x.step e))

/-- While the events take their course nothing happens to the tree but that files grow. -/
def FilesGrow (x : ScanSession) (events : List ScanEvent) : Prop :=
  ∀ before e after, events = before ++ e :: after →
    (x.run before).tracking.host.tree.GrowsTo ((x.run before).step e).tracking.host.tree

namespace FilesGrow

variable {e : ScanEvent} {later : List ScanEvent}

lemma nil : x.FilesGrow [] := by
  intro before e after h
  cases before <;> cases h

lemma cons (hhead : x.tracking.host.tree.GrowsTo (x.step e).tracking.host.tree)
    (htail : (x.step e).FilesGrow later) : x.FilesGrow (e :: later) := by
  intro before e' after h
  cases before with
  | nil =>
    cases h
    exact hhead
  | cons first before =>
    cases h
    exact htail before e' after rfl

lemma head (h : x.FilesGrow (e :: later)) :
    x.tracking.host.tree.GrowsTo (x.step e).tracking.host.tree := h [] e later rfl

lemma tail (h : x.FilesGrow (e :: later)) : (x.step e).FilesGrow later := by
  rintro before e' after rfl
  exact h (e :: before) e' after rfl

lemma run {events : List ScanEvent} (h : x.FilesGrow events) :
    x.tracking.host.tree.GrowsTo (x.run events).tracking.host.tree := by
  induction events generalizing x with
  | nil => exact .refl _
  | cons e rest ih => exact h.head.trans (ih h.tail)

end FilesGrow

/-! ## Reports -/

/-- The scan has yielded the pagemaps in the reports, one answer each, and `n` times nothing any
more.  The reports are on the first of the files, and on all of them if the scan is at its end. -/
structure Accounted (x : ScanSession) (events : List ScanEvent) (reports : List (Option Pagemap))
    (n : Nat) : Prop where
  pulled : x.answers events = yields reports.reduceOption ++ List.replicate n none
  aligned : Reports x.map (x.run events).map x.scan.scan.baseline
    (x.scan.scan.walker.segments x.tracking.host.tree)
    (x.scan.scan.walker.segments (x.run events).tracking.host.tree) reports
  complete : 0 < n → reports.length = (x.scan.scan.walker.segments x.tracking.host.tree).length

/-- What happens between pulls does not change what the scan reports. -/
lemma Accounted.of_step {e : ScanEvent} {later : List ScanEvent} {reports : List (Option Pagemap)}
    {n : Nat} (h : (x.step e).Accounted later reports n) (hscan : (x.step e).scan = x.scan)
    (hanswers : x.answers (e :: later) = (x.step e).answers later)
    (hmap : x.map.GrowsTo (x.step e).map)
    (htree : x.tracking.host.tree.GrowsTo (x.step e).tracking.host.tree) :
    x.Accounted (e :: later) reports n := by
  obtain ⟨hyields, hreports, hcomplete⟩ := h
  have hfiles := Walker.segments_growsTo htree x.scan.scan.walker
  rw [hscan] at hreports hcomplete
  exact ⟨hanswers.trans hyields, hreports.reopen hmap hfiles,
    fun hn => (hcomplete hn).trans hfiles.length_eq.symm⟩

/-- A pull that passes files and yields a pagemap. -/
lemma Accounted.of_yield {later : List ScanEvent} {reports : List (Option Pagemap)} {n : Nat}
    (h : (x.step .pull).Accounted later reports n) {pagemap : Pagemap} {s : Scan}
    (hnext : x.scan.scan.next x.tracking.host.tree x.map = (some (.ok pagemap), s))
    (hbaseline : s.baseline = x.scan.scan.baseline) {files files' : List Segment}
    (hpasses : x.scan.scan.walker.Passes x.tracking.host.tree files s.walker)
    (hpasses' : x.scan.scan.walker.Passes (x.run (.pull :: later)).tracking.host.tree files'
      s.walker)
    (hpassed : List.Forall₂ Segment.GrowsTo files files')
    (hmap : x.map.GrowsTo (x.run (.pull :: later)).map)
    (hreduce : (files.map (x.map.pagemap? x.scan.scan.baseline)).reduceOption = [pagemap]) :
    x.Accounted (.pull :: later)
      (files.map (x.map.pagemap? x.scan.scan.baseline) ++ reports) n := by
  obtain ⟨hyields, hreports, hcomplete⟩ := h
  rw [scan_pull hnext] at hreports hcomplete
  rw [hbaseline] at hreports
  refine ⟨?_, ?_, ?_⟩
  · rw [answers_pull hnext, hyields, List.reduceOption_append, hreduce, yields_append]
    rfl
  · rw [hpasses.segments_eq, hpasses'.segments_eq]
    exact hreports.append hmap hpassed
  · intro hn
    rw [hpasses.segments_eq, List.length_append, List.length_append, List.length_map, hcomplete hn]
    rfl

section Course

variable (hkept : x.scan.map < x.tracking.host.maps.size)

include hkept

lemma kept_step (e : ScanEvent) :
    (x.step e).scan.map < (x.step e).tracking.host.maps.size := by
  rw [map_step]
  exact hkept.trans_le (x.leadsTo_step e).host.size

lemma map_growsTo_step (e : ScanEvent) : x.map.GrowsTo (x.step e).map := by
  have hgrows := (x.leadsTo_step e).host.map _ hkept
  rwa [map, map, map_step]

lemma map_growsTo_run (events : List ScanEvent) : x.map.GrowsTo (x.run events).map := by
  have hgrows := (x.leadsTo_run events).host.map _ hkept
  rwa [map, map, map_run]

lemma valid_of_run {events : List ScanEvent} (hvalid : (x.run events).map.valid = true) :
    x.map.valid = true := by
  rw [map, map_run] at hvalid
  exact (x.retiresReplaced_run events).valid _ hkept hvalid

/-- Whatever the events are, the scan has accounted for the files that it came to.  The induction is
on the events, with the session at its start left free. -/
lemma exists_accounted (hfinished : x.scan.scan.finished = false) {events : List ScanEvent}
    (hgrow : x.FilesGrow events) (hvalid : (x.run events).map.valid = true) :
    ∃ reports n, x.Accounted events reports n := by
  induction events generalizing x with
  | nil => exact ⟨[], 0, rfl, .nil _ _, fun h => absurd h (Nat.lt_irrefl 0)⟩
  | cons e later ih =>
    have hmap := map_growsTo_step hkept e
    cases e with
    | act a =>
      obtain ⟨reports, n, h⟩ := ih (kept_step hkept (.act a)) hfinished hgrow.tail hvalid
      exact ⟨reports, n, h.of_step rfl rfl hmap hgrow.head⟩
    | marks id marks =>
      obtain ⟨reports, n, h⟩ := ih (kept_step hkept (.marks id marks)) hfinished hgrow.tail hvalid
      exact ⟨reports, n, h.of_step rfl rfl hmap hgrow.head⟩
    | pull =>
      have hend := map_growsTo_run hkept (.pull :: later)
      obtain ⟨files, w, hpasses, hanswer⟩ := Scan.next_passes (t := x.tracking.host.tree)
        (valid_of_run hkept hvalid) hfinished
      obtain ⟨files', hpassed, hpasses'⟩ := hpasses.growsTo hgrow.run
      rcases hanswer with ⟨pagemap, s, hnext, rfl, hbaseline, hgoes, hreduce⟩ |
        ⟨s, hnext, hends, hleft, hreduce⟩
      · obtain ⟨reports, n, h⟩ :=
          ih (kept_step hkept .pull) (scan_pull hnext ▸ hgoes) hgrow.tail hvalid
        exact ⟨_, n, h.of_yield hnext hbaseline hpasses hpasses' hpassed hend hreduce⟩
      · obtain ⟨n, hn⟩ := answers_of_finished (x := x.step .pull) (scan_pull hnext ▸ hends) later
        refine ⟨files.map (x.map.pagemap? x.scan.scan.baseline), n + 1, ?_, ?_, ?_⟩
        · rw [answers_pull hnext, hn, hreduce]
          rfl
        · rw [hpasses.segments_eq, hpasses'.segments_eq]
          exact .of_passed hend hpassed
        · intro _
          rw [hpasses.segments_eq, hleft, List.append_nil, List.length_map]

/-- **Scans report what counted in the beginning and nothing that does not count in the end.**  A
scan is opened, and then it is asked for its answers while anything happens that leaves its map
valid and the tree as it is, but for files that grow.  Its answers are pagemaps, and nothing any
more once all files were come to.  There is at most one pagemap for each file of the walk, and they
come in the order of the files.  A file's pagemap, or that there is none, contains all offsets that
count as changed at the beginning and only such as count in the end. -/
theorem answers_sandwiched {baseline : Lsn} {walker : Walker}
    (hscan : x.scan.scan = .ofWalker baseline walker) {events : List ScanEvent}
    (hgrow : x.FilesGrow events) (hvalid : (x.run events).map.valid = true) :
    ∃ (reports : List (Option Pagemap)) (n : Nat),
      x.answers events = yields reports.reduceOption ++ List.replicate n none ∧
      (∀ (i : Nat) (report : Option Pagemap), reports[i]? = some report → ∃ f f',
        (walker.segments x.tracking.host.tree)[i]? = some f ∧
        (walker.segments (x.run events).tracking.host.tree)[i]? = some f' ∧
        Sandwiched x.map (x.run events).map baseline f f' report) ∧
      (none ∈ x.answers events →
        reports.length = (walker.segments x.tracking.host.tree).length) ∧
      ((walker.segments x.tracking.host.tree).length < (x.answers events).length →
        none ∈ x.answers events) := by
  have hfinished : x.scan.scan.finished = false := by
    rw [hscan]
    rfl
  obtain ⟨reports, n, hanswers, hreports, hcomplete⟩ :=
    exists_accounted hkept hfinished hgrow hvalid
  rw [hscan] at hreports hcomplete
  refine ⟨reports, n, hanswers, fun i report hi => hreports.sandwiched hi, ?_, ?_⟩
  · intro hnone
    refine hcomplete (Nat.pos_of_ne_zero ?_)
    rintro rfl
    rw [hanswers] at hnone
    simp [yields] at hnone
  · intro hlength
    have hle : reports.reduceOption.length ≤ (walker.segments x.tracking.host.tree).length :=
      (List.reduceOption_length_le reports).trans hreports.length_le
    have hpos : 0 < n := by
      rw [hanswers, List.length_append, List.length_replicate, yields, List.length_map] at hlength
      omega
    rw [hanswers]
    exact List.mem_append_right _ (List.mem_replicate.mpr ⟨hpos.ne', rfl⟩)

end Course

/-- The relation's file after another block was written to it. -/
def grownTree : Tree :=
  Tracking.databaseTree.put
    [.ofText "16384", .ofText "5", .ofText "base", .ofText "data"]
    (.file (.zeros (2 * blockSize)))

lemma growsTo_grownTree : Tracking.databaseTree.GrowsTo grownTree := by
  have hfind : Tracking.databaseTree.find?
      [⟨"16384", by decide⟩, ⟨"5", by decide⟩, ⟨"base", by decide⟩, ⟨"data", by decide⟩]
        = some (.file (.zeros blockSize)) := by
    decide +kernel
  exact Tree.growsTo_put (by decide) hfind (.file (by decide))

/-- A block that was marked before the scan was opened is reported, although the file grows and
another block of it is marked before the scan comes there. -/
theorem answers_sandwiched_growing :
    ∃ x : ScanSession,
      (∃ s, Tracking.start ⟨⟨"data"⟩, 8, "v1", some ⟨"x/m"⟩⟩ exemptNone
          ⟨Tracking.databaseTree, ⟨50⟩, #[]⟩ = .ok s ∧
        x.tracking = s.run [.mark ⟨⟨defaultTablespace, 5, 16384⟩, .main, 0⟩ ⟨100⟩]) ∧
      x.scan = ⟨0, .ofWalker ⟨70⟩ (.ofRoots "v1" [Tracking.databaseRoot])⟩ ∧
      ∃ pagemap, some (.ok pagemap) ∈ x.answers
          [.act (.changeTree grownTree),
            .marks 0 [(⟨⟨defaultTablespace, 5, 16384⟩, .main, 1⟩, ⟨120⟩)], .pull, .pull] ∧
        pagemap.blocks.contains 0 = true := by
  obtain ⟨x, hstart, hscan, hkept, htree, hvalid, hread⟩ :
      ∃ x : ScanSession,
        (∃ s, Tracking.start ⟨⟨"data"⟩, 8, "v1", some ⟨"x/m"⟩⟩ exemptNone
            ⟨Tracking.databaseTree, ⟨50⟩, #[]⟩ = .ok s ∧
          x.tracking = s.run [.mark ⟨⟨defaultTablespace, 5, 16384⟩, .main, 0⟩ ⟨100⟩]) ∧
        x.scan = ⟨0, .ofWalker ⟨70⟩ (.ofRoots "v1" [Tracking.databaseRoot])⟩ ∧
        x.scan.map < x.tracking.host.maps.size ∧ x.tracking.host.tree = Tracking.databaseTree ∧
        (x.run [.act (.changeTree grownTree),
          .marks 0 [(⟨⟨defaultTablespace, 5, 16384⟩, .main, 1⟩, ⟨120⟩)], .pull, .pull]).map.valid
            = true ∧
        x.map.read ⟨⟨defaultTablespace, 5, 16384⟩, .main, 0⟩ = ⟨100⟩ := by
    refine ⟨⟨_, _⟩, ⟨_, rfl, rfl⟩, rfl, ?_, rfl, ?_, ?_⟩
    · decide +kernel
    · rfl
    · decide +kernel
  have hgrow : x.FilesGrow [.act (.changeTree grownTree),
      .marks 0 [(⟨⟨defaultTablespace, 5, 16384⟩, .main, 1⟩, ⟨120⟩)], .pull, .pull] := by
    refine .cons ?_ (.cons (.refl _) (.cons (.refl _) (.cons (.refl _) .nil)))
    rw [htree]
    exact growsTo_grownTree
  have hfiles : (Walker.ofRoots "v1" [Tracking.databaseRoot]).segments x.tracking.host.tree
      = [segmentOf "v1" ⟨"data/base/5"⟩ ⟨defaultTablespace, 5⟩ ⟨16384, .main, 0⟩ blockSize] := by
    simp [Walker.segments, Walker.ofRoots, htree, Tracking.listing_databaseTree]
  obtain ⟨reports, n, hanswers, hsandwiched, hcomplete, hended⟩ :=
    answers_sandwiched hkept (by rw [hscan]) hgrow hvalid
  rw [hfiles] at hsandwiched hcomplete hended
  obtain ⟨report, rfl⟩ := List.length_eq_one_iff.mp (hcomplete (hended (by simp [answers])))
  obtain ⟨f, f', hf, -, hbounds⟩ := hsandwiched 0 report rfl
  obtain rfl := Option.some.inj hf
  have hqualifies : x.map.Qualifies ⟨70⟩
      (segmentOf "v1" ⟨"data/base/5"⟩ ⟨defaultTablespace, 5⟩ ⟨16384, .main, 0⟩ blockSize) 0 := by
    have hblock : (segmentOf "v1" ⟨"data/base/5"⟩ ⟨defaultTablespace, 5⟩ ⟨16384, .main, 0⟩
        blockSize).block 0 = ⟨⟨defaultTablespace, 5, 16384⟩, .main, 0⟩ := by decide +kernel
    rw [ChangeMap.Qualifies, hblock, hread]
    exact ⟨Nat.zero_le _, by decide, by decide⟩
  obtain ⟨pagemap, rfl, hcontains⟩ := hbounds.lower 0 hqualifies
  refine ⟨x, hstart, hscan, pagemap, ?_, hcontains⟩
  rw [hanswers]
  simp [yields]

end ScanSession

end ChangeTracking
