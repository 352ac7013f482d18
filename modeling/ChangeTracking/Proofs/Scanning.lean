import ChangeTracking.Proofs.Marking
import ChangeTracking.Scan

/-!
# What scans yield

A set of offsets has just the members that it was made from (`Bitmap.contains_ofList`).  A scan of
a valid map yields, if nothing happens in between, the pagemaps of just the segment files that its
walk comes to and that have a changed block, in the order of the walk (`Scan.run_fst`).
-/

namespace ChangeTracking

namespace Bitmap

/-! ## Members -/

lemma mask_and_mask (n k : Nat) : mask n &&& mask k = 0 ↔ n % 8 ≠ k % 8 := by
  have hall : ∀ a b : Fin 8,
      ((1 : UInt8) <<< UInt8.ofNat a.val) &&& ((1 : UInt8) <<< UInt8.ofNat b.val) = 0 ↔ a ≠ b := by
    decide
  have hbit := hall ⟨n % 8, Nat.mod_lt n (by decide)⟩ ⟨k % 8, Nat.mod_lt k (by decide)⟩
  simpa [mask] using hbit

lemma contains_iff (s : Bitmap) (n : Nat) :
    s.contains n = true ↔ (s.bits[n / 8]?.getD 0) &&& mask n ≠ 0 := by
  unfold contains
  cases s.bits[n / 8]? with
  | none => simp
  | some byte => simp

lemma getD_padTo (size : Nat) (bytes : Array UInt8) (i : Nat) :
    (padTo size bytes)[i]?.getD 0 = bytes[i]?.getD 0 := by
  simp only [padTo, Array.getElem?_append, Array.getElem?_replicate]
  by_cases hi : i < bytes.size
  · simp [hi]
  · rw [if_neg hi, Array.getElem?_eq_none (Nat.le_of_not_lt hi)]
    split <;> rfl

lemma getD_insert (s : Bitmap) (n i : Nat) :
    (s.insert n).bits[i]?.getD 0 =
      if i = n / 8 then s.bits[i]?.getD 0 ||| mask n else s.bits[i]?.getD 0 := by
  have hpad := getD_padTo (n / 8 + 1) s.bits i
  rw [insert, Array.getElem?_modify]
  by_cases hi : n / 8 = i
  · have hlt : i < (padTo (n / 8 + 1) s.bits).size := by
      rw [padTo, Array.size_append, Array.size_replicate]
      omega
    rw [if_pos hi, if_pos hi.symm, ← hpad, Array.getElem?_eq_getElem hlt]
    rfl
  · rw [if_neg hi, if_neg (Ne.symm hi), hpad]

lemma contains_insert (s : Bitmap) (n k : Nat) :
    (s.insert n).contains k = true ↔ k = n ∨ s.contains k = true := by
  rw [contains_iff, contains_iff, getD_insert]
  by_cases hbyte : k / 8 = n / 8
  · have hsame : k = n ↔ n % 8 = k % 8 := by omega
    have hdistrib : ((s.bits[k / 8]?.getD 0) ||| mask n) &&& mask k =
        ((s.bits[k / 8]?.getD 0) &&& mask k) ||| (mask n &&& mask k) :=
      UInt8.toBitVec_inj.mp BitVec.and_or_distrib_right
    rw [if_pos hbyte, hdistrib, Ne, UInt8.or_eq_zero_iff, mask_and_mask, not_and_or, not_not, hsame,
      or_comm]
  · have hne : k ≠ n := fun h => hbyte (by rw [h])
    simp [hbyte, hne]

lemma contains_foldl_insert (s : Bitmap) (members : List Nat) (n : Nat) :
    (members.foldl insert s).contains n = true ↔ n ∈ members ∨ s.contains n = true := by
  induction members generalizing s with
  | nil => simp
  | cons k rest ih =>
    rw [List.foldl_cons, ih, contains_insert, List.mem_cons]
    tauto

/-- A set has the members that it was made from. -/
theorem contains_ofList (members : List Nat) (n : Nat) :
    (ofList members).contains n = true ↔ n ∈ members := by
  have hempty : empty.contains n = false := rfl
  rw [ofList, contains_foldl_insert, hempty]
  simp

end Bitmap

namespace ChangeMap

/-! ## Pagemaps -/

/-- What a scan yields for a segment file. -/
def pagemap? (m : ChangeMap) (baseline : Lsn) (s : Segment) : Option Pagemap :=
  if (m.changedOffsets baseline s).isEmpty then none
  else some ⟨s.relativePath, .ofList (m.changedOffsets baseline s)⟩

/-- The paths of pagemaps are those of the files, in their order. -/
lemma sublist_paths (m : ChangeMap) (baseline : Lsn) (files : List Segment) :
    ((files.filterMap (m.pagemap? baseline)).map Pagemap.path).Sublist
      (files.map Segment.relativePath) := by
  induction files with
  | nil => exact .slnil
  | cons f rest ih =>
    rw [List.filterMap_cons, List.map_cons]
    by_cases hempty : (m.changedOffsets baseline f).isEmpty = true
    · rw [pagemap?, if_pos hempty]
      exact ih.cons _
    · rw [pagemap?, if_neg hempty]
      exact ih.cons_cons f.relativePath

lemma mem_changedOffsets {m : ChangeMap} {baseline : Lsn} {s : Segment} {offset : Nat} :
    offset ∈ m.changedOffsets baseline s ↔
      offset ≤ min s.blockCount (blocksPerSegment - 1) ∧ m.read (s.block offset) ≠ Lsn.never ∧
        baseline ≤ m.read (s.block offset) := by
  rw [changedOffsets, List.mem_filter, Segment.scannedOffsets, List.mem_range, Nat.lt_succ_iff]
  simp [hasChanged, Lsn.known_iff]

/-- A scan asks about all whole blocks. -/
lemma mem_changedOffsets_of_lt {m : ChangeMap} {baseline : Lsn} {s : Segment} {offset : Nat}
    (hoffset : offset < s.blockCount) (hread : m.read (s.block offset) ≠ Lsn.never)
    (hle : baseline ≤ m.read (s.block offset)) : offset ∈ m.changedOffsets baseline s := by
  have hcount : s.blockCount ≤ blocksPerSegment := Nat.min_le_right _ _
  rw [mem_changedOffsets]
  refine ⟨?_, hread, hle⟩
  omega

/-- A changed block that a scan asks about is in the pagemap of its segment file. -/
lemma exists_pagemap {m : ChangeMap} {baseline : Lsn} {s : Segment} {offset : Nat}
    (h : offset ∈ m.changedOffsets baseline s) :
    ∃ pagemap, m.pagemap? baseline s = some pagemap ∧ pagemap.path = s.relativePath ∧
      pagemap.blocks.contains offset = true := by
  refine ⟨⟨s.relativePath, .ofList (m.changedOffsets baseline s)⟩, ?_, rfl,
    (Bitmap.contains_ofList _ _).mpr h⟩
  rw [pagemap?, if_neg]
  simpa using List.ne_nil_of_mem h

end ChangeMap

namespace Scan

variable {t : Tree} {m : ChangeMap}

/-- What a scan has still to yield, if the tree and the map stay as they are. -/
def pagemaps (t : Tree) (m : ChangeMap) (s : Scan) : List Pagemap :=
  (s.walker.segments t).filterMap (m.pagemap? s.baseline)

/-- A step of a scan yields the first of the pagemaps that are left. -/
lemma next_spec (hvalid : m.valid = true) {s : Scan} (hs : s.finished = false) :
    match s.next t m with
    | (none, _) => s.pagemaps t m = []
    | (some item, s') =>
      s'.finished = false ∧ ∃ pagemap, item = .ok pagemap ∧
        s.pagemaps t m = pagemap :: s'.pagemaps t m := by
  fun_induction next t m s with
  | case1 s hfinished => simp [hs] at hfinished
  | case2 s _ hinvalid => simp [hvalid] at hinvalid
  | case3 s _ _ hnext => simp [pagemaps, Walker.next_eq_none_iff.mp hnext]
  | case4 s _ _ segment walker hnext offsets stats hempty ih =>
    have hnone : m.pagemap? s.baseline segment = none := by
      rw [ChangeMap.pagemap?, if_pos hempty]
    have hsame : s.pagemaps t m =
        ({ s with walker := walker, stats := stats } : Scan).pagemaps t m := by
      simp only [pagemaps, Walker.next_eq_some hnext, List.filterMap_cons, hnone]
    rw [hsame]
    exact ih hs
  | case5 s _ _ segment walker hnext offsets stats hsome blocks =>
    refine ⟨hs, ⟨segment.relativePath, blocks⟩, rfl, ?_⟩
    have hpagemap : m.pagemap? s.baseline segment = some ⟨segment.relativePath, blocks⟩ := by
      rw [ChangeMap.pagemap?, if_neg hsome]
    simp only [pagemaps, Walker.next_eq_some hnext, List.filterMap_cons, hpagemap]

/-- A scan of a valid map yields the pagemaps of all segment files with a changed block. -/
theorem run_fst (hvalid : m.valid = true) {s : Scan} (hs : s.finished = false) :
    (s.run t m).1 = (s.pagemaps t m).map .ok := by
  fun_induction run t m s with
  | case1 s last hnext =>
    have hspec := next_spec (t := t) hvalid hs
    rw [hnext] at hspec
    simp [hspec]
  | case2 s item s' hnext items last hrun ih =>
    have hspec := next_spec (t := t) hvalid hs
    rw [hnext] at hspec
    obtain ⟨hs', pagemap, rfl, hpagemaps⟩ := hspec
    rw [hrun] at ih
    rw [hpagemaps, List.map_cons, ← ih hs']

/-- A scan of a valid map reports the changed blocks of all segment files that its walk comes to. -/
lemma exists_pagemap_run (hvalid : m.valid = true) {s : Scan} (hs : s.finished = false)
    {f : Segment} (hf : f ∈ s.walker.segments t) {offset : Nat}
    (hoffset : offset ∈ m.changedOffsets s.baseline f) :
    ∃ pagemap, .ok pagemap ∈ (s.run t m).1 ∧ pagemap.path = f.relativePath ∧
      pagemap.blocks.contains offset = true := by
  obtain ⟨pagemap, hpagemap, hpath, hcontains⟩ := ChangeMap.exists_pagemap hoffset
  refine ⟨pagemap, ?_, hpath, hcontains⟩
  rw [run_fst hvalid hs]
  exact List.mem_map_of_mem (List.mem_filterMap.mpr ⟨f, hf, hpagemap⟩)

end Scan

end ChangeTracking
