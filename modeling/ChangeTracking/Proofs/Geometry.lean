import Mathlib.Algebra.Group.Nat.Defs
import ChangeTracking.Proofs.Growth
import ChangeTracking.Scan

/-!
# Segments and block numbers

Block numbers are 32-bit words, and 32768 full segments have just as many blocks as there are words.
So the segments below that number share the block numbers among themselves without a gap and without
an overlap (`Segment.blockNumber_eq_iff`): their blocks are numbered without ever coming to the last
number that there is (`Segment.toNat_blockNumber`), and every number falls into one segment, at one
offset.  From that number of segments on nothing is left, and all blocks have the last number
(`Segment.blockNumber_of_le`).

A scan asks about one block more than is marked when the file was copied, as long as the segment has
room for it.  Both stay in the segment, whatever the size of the file
(`Segment.lt_of_mem_scannedOffsets`), so neither ever comes to the blocks of another segment of the
fork.
-/

namespace ChangeTracking

/-- The number of segments that have numbers for all their blocks. -/
def numberedSegments : ℕ := 32768

namespace Segment

lemma numberedSegments_mul : numberedSegments * blocksPerSegment = lastBlock + 1 := rfl

lemma lastBlock_lt : lastBlock < UInt32.size := by decide

variable {s s' : Segment} {offset offset' : ℕ}

/-! ## The numbers of a segment's blocks -/

/-- In a segment that has numbers for all its blocks they are counted on from those before it. -/
lemma toNat_blockNumber (hindex : s.index.toNat < numberedSegments)
    (hoffset : offset < blocksPerSegment) :
    (s.blockNumber offset).toNat = s.index.toNat * blocksPerSegment + offset := by
  have hall := numberedSegments_mul
  have hlast : s.index.toNat * blocksPerSegment + offset ≤ lastBlock := by
    have hnext : (s.index.toNat + 1) * blocksPerSegment ≤ numberedSegments * blocksPerSegment :=
      Nat.mul_le_mul_right blocksPerSegment hindex
    rw [Nat.succ_mul] at hnext
    omega
  have hbase : s.index.toNat * blocksPerSegment ≤ lastBlock := by omega
  rw [blockNumber, baseBlock, Nat.min_eq_left hbase, Nat.min_eq_left hlast,
    UInt32.toNat_ofNat_of_lt' (hlast.trans_lt lastBlock_lt)]

/-- A segment behind those has the last number for all its blocks. -/
lemma blockNumber_of_le (hindex : numberedSegments ≤ s.index.toNat) (offset : ℕ) :
    (s.blockNumber offset).toNat = lastBlock := by
  have hall := numberedSegments_mul
  have hpast : lastBlock ≤ s.index.toNat * blocksPerSegment := by
    have hmul : numberedSegments * blocksPerSegment ≤ s.index.toNat * blocksPerSegment :=
      Nat.mul_le_mul_right blocksPerSegment hindex
    omega
  rw [blockNumber, baseBlock, Nat.min_eq_right hpast, Nat.min_eq_right (Nat.le_add_right _ _),
    UInt32.toNat_ofNat_of_lt' lastBlock_lt]

/-- A number belongs to one segment, at one offset. -/
lemma blockNumber_eq_iff (hindex : s.index.toNat < numberedSegments)
    (hoffset : offset < blocksPerSegment) {k : UInt32} :
    s.blockNumber offset = k ↔
      s.index.toNat = k.toNat / blocksPerSegment ∧ offset = k.toNat % blocksPerSegment := by
  rw [← UInt32.toNat_inj, toNat_blockNumber hindex hoffset]
  constructor
  · intro h
    rw [← h]
    have hpos : 0 < blocksPerSegment := by decide
    rw [Nat.mul_comm, Nat.mul_add_div hpos, Nat.mul_add_mod, Nat.div_eq_of_lt hoffset,
      Nat.mod_eq_of_lt hoffset]
    exact ⟨rfl, rfl⟩
  · rintro ⟨hquotient, hremainder⟩
    rw [hquotient, hremainder]
    exact Nat.div_add_mod' k.toNat blocksPerSegment

lemma block_eq_iff (s : Segment) {i : UInt32} (hi : i.toNat < numberedSegments)
    (hoffset : offset < blocksPerSegment) {k : UInt32} :
    { s with index := i }.block offset = ⟨s.relation, s.fork, k⟩ ↔
      i.toNat = k.toNat / blocksPerSegment ∧ offset = k.toNat % blocksPerSegment := by
  have hnumber := blockNumber_eq_iff (s := { s with index := i }) hi hoffset (k := k)
  rw [← hnumber]
  simp [block]

lemma div_lt_numberedSegments (k : UInt32) : k.toNat / blocksPerSegment < numberedSegments := by
  apply Nat.div_lt_of_lt_mul
  rw [Nat.mul_comm]
  exact k.toNat_lt

/-! ## What is scanned and what is marked -/

/-- The offsets of the blocks that are marked when the file was copied into place. -/
def markedOffsets (s : Segment) : List ℕ := List.range s.blockCount

lemma markSegment_eq (m : ChangeMap) (l : Lsn) (s : Segment) :
    m.markSegment l s = m.markAll (s.markedOffsets.map fun offset => (s.block offset, l)) := by
  rw [ChangeMap.markSegment, ChangeMap.markAll, markedOffsets, List.foldl_map]

lemma lt_of_mem_scannedOffsets (h : offset ∈ s.scannedOffsets) : offset < blocksPerSegment := by
  have hpos : 0 < blocksPerSegment := by decide
  rw [scannedOffsets, List.mem_range] at h
  omega

lemma markedOffsets_subset (s : Segment) : s.markedOffsets ⊆ s.scannedOffsets := by
  intro offset h
  have hcount : s.blockCount ≤ blocksPerSegment := Nat.min_le_right _ _
  rw [markedOffsets, List.mem_range] at h
  rw [scannedOffsets, List.mem_range]
  omega

/-- The blocks of a segment come before those of a later one. -/
lemma blockNumber_lt (hindex : s.index < s'.index) (hindex' : s'.index.toNat < numberedSegments)
    (hoffset : offset < blocksPerSegment) (hoffset' : offset' < blocksPerSegment) :
    s.blockNumber offset < s'.blockNumber offset' := by
  have hlt : s.index.toNat < s'.index.toNat := UInt32.lt_iff_toNat_lt.mp hindex
  rw [UInt32.lt_iff_toNat_lt, toNat_blockNumber (hlt.trans hindex') hoffset,
    toNat_blockNumber hindex' hoffset']
  calc s.index.toNat * blocksPerSegment + offset
      < (s.index.toNat + 1) * blocksPerSegment := by rw [Nat.succ_mul]; omega
    _ ≤ s'.index.toNat * blocksPerSegment := Nat.mul_le_mul_right blocksPerSegment hlt
    _ ≤ s'.index.toNat * blocksPerSegment + offset' := Nat.le_add_right _ _

/-- **Segments share the block numbers among themselves.**  For every block number there is just one
segment number below 32768 and one offset in a segment at which the block has that number: the quotient
and the remainder by the blocks of a segment.

In a segment with such a number, whatever the size of its file, the offsets that a scan asks about lie
in the segment, those that are marked are among them, and the number of the block at each is counted on
from the blocks before the segment, with nothing cut off.  So the blocks of different segments of a fork
are different ones, those of the later segment behind those of the earlier.

In a segment with a higher number the block at every offset has the last number that there is. -/
theorem blocks_by_segment :
    (∀ (s : Segment) (k : UInt32),
      (∃! p : UInt32 × ℕ, (p.1.toNat < numberedSegments ∧ p.2 < blocksPerSegment) ∧
        { s with index := p.1 }.block p.2 = ⟨s.relation, s.fork, k⟩) ∧
      ∀ (i : UInt32) (offset : ℕ), i.toNat < numberedSegments → offset < blocksPerSegment →
        ({ s with index := i }.block offset = ⟨s.relation, s.fork, k⟩ ↔
          i.toNat = k.toNat / blocksPerSegment ∧ offset = k.toNat % blocksPerSegment)) ∧
    (∀ s : Segment, s.index.toNat < numberedSegments →
      (∀ (m : ChangeMap) (l : Lsn), m.markSegment l s
        = m.markAll (s.markedOffsets.map fun offset => (s.block offset, l))) ∧
      s.markedOffsets ⊆ s.scannedOffsets ∧
      (∀ offset ∈ s.scannedOffsets, offset < blocksPerSegment ∧
        (s.blockNumber offset).toNat = s.index.toNat * blocksPerSegment + offset) ∧
      ∀ s' : Segment, s'.index.toNat < numberedSegments → s.index < s'.index →
        ∀ offset ∈ s.scannedOffsets, ∀ offset' ∈ s'.scannedOffsets,
          s.blockNumber offset < s'.blockNumber offset') ∧
    ∀ s : Segment, numberedSegments ≤ s.index.toNat →
      ∀ offset, (s.blockNumber offset).toNat = 2 ^ 32 - 1 := by
  refine ⟨fun s k => ?_, fun s hindex => ?_, fun s hindex => blockNumber_of_le hindex⟩
  · have hquotient : (UInt32.ofNat (k.toNat / blocksPerSegment)).toNat
        = k.toNat / blocksPerSegment :=
      UInt32.toNat_ofNat_of_lt' ((div_lt_numberedSegments k).trans (by decide))
    have hdiv : (UInt32.ofNat (k.toNat / blocksPerSegment)).toNat < numberedSegments :=
      hquotient.trans_lt (div_lt_numberedSegments k)
    have hmod : k.toNat % blocksPerSegment < blocksPerSegment := Nat.mod_lt _ (by decide)
    refine ⟨⟨(UInt32.ofNat (k.toNat / blocksPerSegment), k.toNat % blocksPerSegment), ?_, ?_⟩,
      fun i offset hi hoffset => s.block_eq_iff hi hoffset⟩
    · exact ⟨⟨hdiv, hmod⟩, (s.block_eq_iff hdiv hmod).mpr ⟨hquotient, rfl⟩⟩
    · rintro ⟨i, offset⟩ ⟨⟨hi, hoffset⟩, hnumber⟩
      obtain ⟨hindex, hremainder⟩ := (s.block_eq_iff hi hoffset).mp hnumber
      exact Prod.ext (UInt32.toNat_inj.mp (hindex.trans hquotient.symm)) hremainder
  · refine ⟨fun m l => markSegment_eq m l s, s.markedOffsets_subset, ?_, ?_⟩
    · intro offset hoffset
      have hlt := lt_of_mem_scannedOffsets hoffset
      exact ⟨hlt, toNat_blockNumber hindex hlt⟩
    · intro s' hindex' hlt offset hoffset offset' hoffset'
      exact blockNumber_lt hlt hindex' (lt_of_mem_scannedOffsets hoffset)
        (lt_of_mem_scannedOffsets hoffset')

/-- The last segment that has numbers for all its blocks, with a file that is longer than a segment can
be.  The last block that a scan asks about has the last number. -/
theorem blocks_by_segment_last :
    let s : Segment := ⟨⟨1663, 5, 16384⟩, .main, 32767, ⟨"data/base/5/16384.32767"⟩,
      "base/5/16384.32767", 2 ^ 40⟩
    s.index.toNat < numberedSegments ∧ 131071 ∈ s.scannedOffsets ∧
      (s.blockNumber 131071).toNat = 2 ^ 32 - 1 := by
  intro s
  have hindex : s.index.toNat < numberedSegments := by decide
  have hoffset : 131071 ∈ s.scannedOffsets := by
    rw [scannedOffsets, List.mem_range]
    decide
  obtain ⟨-, -, hscanned, -⟩ := blocks_by_segment.2.1 s hindex
  obtain ⟨-, hnumber⟩ := hscanned 131071 hoffset
  exact ⟨hindex, hoffset, hnumber.trans (by decide)⟩

end Segment

end ChangeTracking
