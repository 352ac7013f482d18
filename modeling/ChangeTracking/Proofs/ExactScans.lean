import ChangeTracking.Proofs.Bitmaps
import ChangeTracking.Proofs.Interleaving
import ChangeTracking.Proofs.Walks

/-!
# Scans are exact

A scan of a valid map in a tree that stays as it is yields a pagemap for just the segment files that
have an offset that qualifies, in the order of the walk, and each pagemap has just these offsets
(`Exact`, `Reported`).  What it counts on the way are sums over the files that it came to and the
pagemaps that it yielded.

The counts are shown by what they are going to be: `Scan.statsAtEnd` adds to the present ones what
the files add that are still to come.  A step of the scan does not change it (`next_statsAtEnd`), and
at the end there are no more files.
-/

namespace ChangeTracking

variable {t : Tree} {m : ChangeMap} {baseline : Lsn}

/-- The last offset that a scan asks about is that of the first block that is not whole, if a segment
has room for it. -/
lemma Segment.last_scannedOffset (f : Segment) :
    min f.blockCount (blocksPerSegment - 1) = min (f.size / blockSize) (blocksPerSegment - 1) := by
  rw [blockCount, Nat.min_assoc, Nat.min_eq_right (Nat.sub_le blocksPerSegment 1)]

/-- A pagemap has a file's path and just the offsets that qualify, and is as long as the greatest of
them needs. -/
structure Exact (m : ChangeMap) (baseline : Lsn) (f : Segment) (p : Pagemap) : Prop where
  path : p.path = f.relativePath
  contains_iff : ∀ n, p.blocks.contains n = true ↔
    n ≤ min (f.size / blockSize) (blocksPerSegment - 1) ∧ m.read (f.block n) ≠ Lsn.never ∧
      baseline ≤ m.read (f.block n)
  length : ∀ n, m.Qualifies baseline f n → (∀ k, m.Qualifies baseline f k → k ≤ n) →
    p.blocks.toBytes.length = n / 8 + 1

/-- What is reported of files: an exact pagemap for each that has an offset that qualifies, in their
order, and nothing of the others. -/
inductive Reported (m : ChangeMap) (baseline : Lsn) : List Segment → List Pagemap → Prop
  | nil : Reported m baseline [] []
  | skip {f : Segment} {files : List Segment} {pagemaps : List Pagemap}
      (hnone : ∀ n, ¬ m.Qualifies baseline f n) (hrest : Reported m baseline files pagemaps) :
      Reported m baseline (f :: files) pagemaps
  | report {f : Segment} {p : Pagemap} {files : List Segment} {pagemaps : List Pagemap} {n : Nat}
      (hsome : m.Qualifies baseline f n) (hexact : Exact m baseline f p)
      (hrest : Reported m baseline files pagemaps) :
      Reported m baseline (f :: files) (p :: pagemaps)

namespace ChangeMap

/-! ## One file -/

lemma nodup_changedOffsets (m : ChangeMap) (baseline : Lsn) (f : Segment) :
    (m.changedOffsets baseline f).Nodup :=
  List.nodup_range.filter _

lemma pagemap?_eq_none {f : Segment} (h : m.pagemap? baseline f = none) :
    m.changedOffsets baseline f = [] := by
  unfold pagemap? at h
  split at h
  · next hempty => exact List.isEmpty_iff.mp hempty
  · cases h

lemma pagemap?_eq_some {f : Segment} {p : Pagemap} (h : m.pagemap? baseline f = some p) :
    m.changedOffsets baseline f ≠ [] ∧
      p = ⟨f.relativePath, .ofList (m.changedOffsets baseline f)⟩ := by
  unfold pagemap? at h
  split at h
  · cases h
  · next hsome =>
    exact ⟨fun hnil => hsome (List.isEmpty_iff.mpr hnil), (Option.some.inj h).symm⟩

lemma exact_of_pagemap? {f : Segment} {p : Pagemap} (h : m.pagemap? baseline f = some p) :
    Exact m baseline f p := by
  obtain ⟨-, rfl⟩ := pagemap?_eq_some h
  refine ⟨rfl, fun n => ?_, fun n hn hgreatest => ?_⟩
  · rw [Bitmap.contains_ofList, mem_changedOffsets, Segment.last_scannedOffset]
  · rw [Bitmap.toBytes, Array.length_toList]
    apply Bitmap.size_bits_ofList (mem_changedOffsets.mpr hn)
    exact fun k hk => hgreatest k (mem_changedOffsets.mp hk)

/-- The pagemaps of files are what is to be reported of them. -/
lemma reported_pagemaps (m : ChangeMap) (baseline : Lsn) (files : List Segment) :
    Reported m baseline files (files.filterMap (m.pagemap? baseline)) := by
  induction files with
  | nil => exact .nil
  | cons f rest ih =>
    rw [List.filterMap_cons]
    cases h : m.pagemap? baseline f with
    | none =>
      refine .skip (fun n hn => ?_) ih
      have hmem : n ∈ m.changedOffsets baseline f := mem_changedOffsets.mpr hn
      rw [pagemap?_eq_none h] at hmem
      cases hmem
    | some p =>
      obtain ⟨n, hn⟩ := List.exists_mem_of_ne_nil _ (pagemap?_eq_some h).1
      exact .report (mem_changedOffsets.mp hn) (exact_of_pagemap? h) ih

/-! ## Counts -/

/-- The counts after one more file and, if it has one, its pagemap. -/
def tally (m : ChangeMap) (baseline : Lsn) (stats : ScanStats) (f : Segment) : ScanStats :=
  let counted := stats.addFile f.scannedOffsets.length (m.changedOffsets baseline f).length
  match m.pagemap? baseline f with
  | none => counted
  | some p => counted.addPagemap p.blocks.bits.size

/-- The offsets that changed are counted when they are found and can be counted in the pagemaps. -/
lemma sum_changedOffsets (m : ChangeMap) (baseline : Lsn) (files : List Segment) :
    (files.map fun f => (m.changedOffsets baseline f).length).sum
      = ((files.filterMap (m.pagemap? baseline)).map fun p => p.blocks.size).sum := by
  induction files with
  | nil => rfl
  | cons f rest ih =>
    rw [List.map_cons, List.sum_cons, ih, List.filterMap_cons]
    cases h : m.pagemap? baseline f with
    | none => rw [pagemap?_eq_none h, List.length_nil, Nat.zero_add]
    | some p =>
      obtain ⟨-, rfl⟩ := pagemap?_eq_some h
      rw [List.map_cons, List.sum_cons, Bitmap.size_ofList (m.nodup_changedOffsets baseline f)]

/-- What files add to the counts, one after another, are sums. -/
lemma foldl_tally (m : ChangeMap) (baseline : Lsn) (files : List Segment) (stats : ScanStats) :
    files.foldl (m.tally baseline) stats =
      ⟨stats.files + files.length,
        stats.blocks + (files.map fun f => f.scannedOffsets.length).sum,
        stats.changed + (files.map fun f => (m.changedOffsets baseline f).length).sum,
        stats.pagemaps + (files.filterMap (m.pagemap? baseline)).length,
        stats.bytes
          + ((files.filterMap (m.pagemap? baseline)).map fun p => p.blocks.bits.size).sum⟩ := by
  induction files generalizing stats with
  | nil => rfl
  | cons f rest ih =>
    rw [List.foldl_cons, ih, List.filterMap_cons, tally]
    cases m.pagemap? baseline f with
    | none =>
      simp only [ScanStats.addFile, List.length_cons, List.map_cons, List.sum_cons,
        ScanStats.mk.injEq, and_true]
      omega
    | some p =>
      simp only [ScanStats.addFile, ScanStats.addPagemap, List.length_cons, List.map_cons,
        List.sum_cons, ScanStats.mk.injEq]
      omega

end ChangeMap

namespace Scan

/-- What a scan will have counted at its end, if the tree and the map stay as they are. -/
def statsAtEnd (t : Tree) (m : ChangeMap) (s : Scan) : ScanStats :=
  (s.walker.segments t).foldl (m.tally s.baseline) s.stats

/-- A step of a scan leaves what it will have counted at its end, and the last step comes to it. -/
lemma next_statsAtEnd (hvalid : m.valid = true) {s : Scan} (hs : s.finished = false) :
    (s.next t m).2.statsAtEnd t m = s.statsAtEnd t m ∧
      ((s.next t m).1 = none →
        (s.next t m).2.finished = true ∧ (s.next t m).2.stats = s.statsAtEnd t m) := by
  fun_induction next t m s with
  | case1 s hfinished => simp [hs] at hfinished
  | case2 s _ hinvalid => simp [hvalid] at hinvalid
  | case3 s _ _ hnext =>
    have hnone := Walker.next_eq_none_iff.mp hnext
    refine ⟨rfl, fun _ => ⟨rfl, ?_⟩⟩
    rw [statsAtEnd, hnone]
    rfl
  | case4 s _ _ f walker hnext offsets stats hempty ih =>
    have hstats : m.tally s.baseline s.stats f = stats := by
      rw [ChangeMap.tally, ChangeMap.pagemap?, if_pos hempty]
    have hsame : s.statsAtEnd t m =
        ({ s with walker := walker, stats := stats } : Scan).statsAtEnd t m := by
      rw [statsAtEnd, Walker.next_eq_some hnext, List.foldl_cons, hstats, statsAtEnd]
    rw [hsame]
    exact ih hs
  | case5 s _ _ f walker hnext offsets stats hsome blocks =>
    have hstats : m.tally s.baseline s.stats f = stats.addPagemap blocks.bits.size := by
      rw [ChangeMap.tally, ChangeMap.pagemap?, if_neg hsome]
    refine ⟨?_, fun hnone => by cases hnone⟩
    rw [statsAtEnd, statsAtEnd, Walker.next_eq_some hnext, List.foldl_cons, hstats]

/-- A scan of a valid map comes to its end, and to the counts that all files add up to. -/
lemma run_snd (hvalid : m.valid = true) {s : Scan} (hs : s.finished = false) :
    (s.run t m).2.finished = true ∧ (s.run t m).2.stats = s.statsAtEnd t m := by
  fun_induction run t m s with
  | case1 s last hnext =>
    have hlast := (next_statsAtEnd (t := t) hvalid hs).2
    rw [hnext] at hlast
    exact hlast rfl
  | case2 s item s' hnext items last hrun ih =>
    have hspec := next_spec (t := t) hvalid hs
    have hsame := (next_statsAtEnd (t := t) hvalid hs).1
    rw [hnext] at hspec hsame
    rw [hrun] at ih
    rw [← hsame]
    exact ih hspec.1

/-- **Scans are exact.**  A scan of a valid map, run to its end over any walk in a tree that stays as
it is, reports on the files that the walk yields: in their order, with an exact pagemap for each that
has an offset that qualifies, and with nothing for the others.  It has counted the files, the offsets
that were asked about, and of the pagemaps the offsets in them, their number and their bytes. -/
theorem run_exact (hvalid : m.valid = true) (baseline : Lsn) (w : Walker) :
    ∃ pagemaps : List Pagemap,
      ((ofWalker baseline w).run t m).1 = pagemaps.map .ok ∧
      Reported m baseline (w.collect t) pagemaps ∧
      ((ofWalker baseline w).run t m).2.finished = true ∧
      ((ofWalker baseline w).run t m).2.stats =
        { files := (w.collect t).length
          blocks := ((w.collect t).map fun f =>
            min (f.size / blockSize) (blocksPerSegment - 1) + 1).sum
          changed := (pagemaps.map fun p => p.blocks.size).sum
          pagemaps := pagemaps.length
          bytes := (pagemaps.map fun p => p.blocks.toBytes.length).sum } := by
  obtain ⟨hfinished, hstats⟩ := run_snd (t := t) (s := ofWalker baseline w) hvalid rfl
  refine ⟨(ofWalker baseline w).pagemaps t m, run_fst hvalid rfl, ?_, hfinished, ?_⟩
  · rw [Walker.collect_eq_segments]
    exact m.reported_pagemaps baseline _
  · have hasked : ∀ f : Segment, f.scannedOffsets.length
        = min (f.size / blockSize) (blocksPerSegment - 1) + 1 := by
      intro f
      rw [Segment.scannedOffsets, List.length_range, Segment.last_scannedOffset]
    rw [hstats, statsAtEnd, ChangeMap.foldl_tally, Walker.collect_eq_segments,
      ChangeMap.sum_changedOffsets]
    simp only [hasked, pagemaps, ofWalker, ScanStats.zero, Nat.zero_add, Bitmap.toBytes,
      Array.length_toList]

/-- A relation of one block, and a map with one slot: the scan asks about the block after it as
well, and reports both. -/
theorem run_exact_database :
    let m : ChangeMap := ⟨#[⟨60⟩], ⟨40⟩, true, by decide, by decide⟩
    let w := Walker.ofRoots "v1" [Tracking.databaseRoot]
    let scan := ofWalker ⟨50⟩ w
    m.valid = true ∧ ∃ p, (scan.run Tracking.databaseTree m).1 = [.ok p] ∧
      p.path = "base/5/16384" ∧ p.blocks.contains 0 = true ∧ p.blocks.contains 1 = true ∧
      p.blocks.contains 2 = false ∧ (scan.run Tracking.databaseTree m).2.stats.blocks = 2 := by
  intro m w scan
  have hvalid : m.valid = true := rfl
  have hfiles : w.collect Tracking.databaseTree = [segmentOf "v1" ⟨"data/base/5"⟩
      ⟨defaultTablespace, 5⟩ ⟨16384, .main, 0⟩ blockSize] := by
    rw [Walker.collect_eq_segments]
    exact (List.append_nil _).trans Tracking.listing_databaseTree
  obtain ⟨pagemaps, hitems, hreported, -, hstats⟩ :=
    run_exact (t := Tracking.databaseTree) hvalid ⟨50⟩ w
  rw [hfiles] at hreported hstats
  have hread : ∀ other, m.read other = ⟨60⟩ := by
    intro other
    have hslot : m.slotOf other = 0 := Nat.lt_one_iff.mp (m.slotOf_lt other)
    rw [ChangeMap.read_eq_slot, hslot]
    rfl
  cases hreported with
  | skip hnone _ =>
    refine absurd ⟨Nat.zero_le _, ?_⟩ (hnone 0)
    rw [hread]
    decide
  | report _ hexact hrest =>
    cases hrest
    refine ⟨hvalid, _, hitems, hexact.path.trans (by decide +kernel), ?_, ?_, ?_, ?_⟩
    · rw [hexact.contains_iff, hread]
      decide +kernel
    · rw [hexact.contains_iff, hread]
      decide +kernel
    · rw [← Bool.not_eq_true, hexact.contains_iff, hread]
      decide +kernel
    · rw [hstats]
      rfl

end Scan

end ChangeTracking
