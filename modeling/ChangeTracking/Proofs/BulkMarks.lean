import ChangeTracking.Proofs.Replacement
import ChangeTracking.Proofs.Scanning
import ChangeTracking.Proofs.Walks
import Mathlib.Algebra.GroupWithZero.Nat

/-!
# Directories are marked on the live map

A directory is marked in passes, and only a pass whose map is still valid after it counts.  A map is
valid just as long as it is live, so the pass that counts is made on the map that is live in the end
(`MarkedOn`), and as every map that takes the place of another is valid there is such a pass, unless
the tracker was stopped (`markPasses_cases`).

The marks are made at the log's position or at the start of the map's epoch, whichever is later.  So
they are in the epoch, and a scan from its start on reports them (`Recorded`).  There is one
exception: while neither of the two is known there is no position to mark at, and nothing is
recorded, although the blocks are counted.  `markDirectory_lands` states both.
-/

namespace ChangeTracking

/-- The map has all whole blocks of the segment files below a root in its epoch, and a scan of the
root from the start of the epoch on reports them. -/
structure Recorded (t : Tree) (version : String) (root : Walk.Root) (m : ChangeMap) : Prop where
  read : ∀ f ∈ root.listing t version, ∀ offset < f.blockCount,
    m.read (f.block offset) ≠ Lsn.never ∧ m.epoch ≤ m.read (f.block offset)
  reported : ∀ f ∈ root.listing t version, ∀ offset < f.blockCount,
    ∃ pagemap, .ok pagemap ∈ ((Scan.ofWalker m.epoch (.ofRoots version [root])).run t m).1 ∧
      pagemap.path = f.relativePath ∧ pagemap.blocks.contains offset = true

lemma recorded_of_read {t : Tree} {version : String} {root : Walk.Root} {m : ChangeMap}
    (hvalid : m.valid = true)
    (hread : ∀ f ∈ root.listing t version, ∀ offset < f.blockCount,
      m.read (f.block offset) ≠ Lsn.never ∧ m.epoch ≤ m.read (f.block offset)) :
    Recorded t version root m where
  read := hread
  reported f hf offset hoffset := by
    obtain ⟨hknown, hle⟩ := hread f hf offset hoffset
    apply Scan.exists_pagemap_run hvalid rfl
    · simpa [Scan.ofWalker, Walker.segments, Walker.ofRoots] using hf
    · exact ChangeMap.mem_changedOffsets_of_lt hoffset hknown hle

namespace Tracking

variable {s s' s₁ : Tracking} {live : MapId} {root : Walk.Root} {stats : BulkStats}

/-! ## The pass that counts -/

/-- `s'` is `s₁` after the directory was marked on its live map, which is valid. -/
structure MarkedOn (s₁ : Tracking) (live : MapId) (root : Walk.Root) (stats : BulkStats)
    (s' : Tracking) : Prop where
  coherent : s₁.Coherent
  same : s₁.live? = some live
  valid : (s₁.host.map live).valid = true
  counts : stats = .ofSegments
    (root.listing s₁.host.tree s₁.tracker.config.versionDirectory)
  after : s' = s₁.withHost (s₁.host.updateMap live (·.markAll (s₁.passMarks live root)))

namespace MarkedOn

variable (h : s₁.MarkedOn live root stats s')

include h

lemma live?_eq : s'.live? = some live := by
  rw [h.after]
  exact h.same

lemma map_eq : s'.host.map live = (s₁.host.map live).markAll (s₁.passMarks live root) := by
  rw [h.after, host_withHost, Host.map_updateMap_self (h.coherent live h.same)]

lemma tree_eq : s'.host.tree = s₁.host.tree := by
  rw [h.after]
  rfl

lemma valid_map : (s'.host.map live).valid = true := by
  rw [h.map_eq, ChangeMap.valid_markAll]
  exact h.valid

lemma files_eq : stats.files =
    (root.listing s'.host.tree s₁.tracker.config.versionDirectory).length := by
  rw [h.counts, h.tree_eq]
  rfl

lemma blocks_eq : stats.blocks =
    ((root.listing s'.host.tree s₁.tracker.config.versionDirectory).map
      Segment.blockCount).sum := by
  rw [h.counts, h.tree_eq, List.sum_eq_foldl]
  rfl

/-- What the marks are made at is in the epoch, and it is a position if the log's is or the epoch
has one. -/
lemma recorded
    (hknown : s'.host.position.known = true ∨ (s'.host.map live).epoch.known = true) :
    Recorded s'.host.tree s₁.tracker.config.versionDirectory root (s'.host.map live) := by
  set l := s₁.host.position.latest (s₁.host.map live).epoch with hl
  have hposition : s₁.host.position ≤ l := by
    rw [hl, Lsn.latest_eq_max]
    exact le_max_left _ _
  have hstart : (s₁.host.map live).epoch ≤ l := by
    rw [hl, Lsn.latest_eq_max]
    exact le_max_right _ _
  have hepoch : (s'.host.map live).epoch ≤ l := by
    rw [h.map_eq]
    apply ChangeMap.epoch_markAll_le hstart
    rintro ⟨b, l'⟩ hmark
    exact (ChangeMap.mem_segmentMarks.mp hmark).1.le
  have hmarked : l.known = true := by
    rcases hknown with hknown | hknown
    · rw [h.after] at hknown
      exact Lsn.known_of_le hknown hposition
    · exact Lsn.known_of_le hknown hepoch
  refine recorded_of_read h.valid_map fun f hf offset hoffset => ?_
  have hread : l ≤ (s'.host.map live).read (f.block offset) := by
    rw [h.map_eq]
    apply ChangeMap.le_read_markAll
    rw [h.tree_eq] at hf
    exact ChangeMap.mem_segmentMarks.mpr ⟨rfl, f, hf, offset, hoffset, rfl⟩
  exact ⟨Lsn.known_iff.mp (Lsn.known_of_le hmarked hread), hepoch.trans hread⟩

end MarkedOn

/-- A pass after which its map is valid has marked the live map. -/
lemma markedOn_markPass (hs : s.Coherent) (hlive : s.live? = some live) (root : Walk.Root)
    {now : List Interruption}
    (hvalid : ((s.markPass live root now).2.host.map live).valid = true) :
    (now.foldl interrupt s).MarkedOn live root (s.markPass live root now).1
      (s.markPass live root now).2 := by
  have hretires := s.retiresReplaced_interrupts now
  have hcoherent := (s.leadsTo_interrupts now).coherent hs
  rw [markPass_eq] at *
  have hkept := (hs live hlive).trans_le hretires.size
  have hvalid' : ((now.foldl interrupt s).host.map live).valid = true := by
    rwa [host_withHost, Host.map_updateMap_self hkept, ChangeMap.valid_markAll] at hvalid
  exact ⟨hcoherent, hretires.live live (hs live hlive) hvalid' hlive, hvalid', rfl, rfl⟩

/-- Marking a directory comes to a pass that counts, or finds the tracker stopped. -/
lemma markPasses_cases (hs : s.Coherent) (hvalid : s.LiveValid) (root : Walk.Root)
    (events : List (List Interruption)) :
    ((s.markPasses root events).1 = .skipped ∧ (s.markPasses root events).2.live? = none) ∨
      ∃ stats s₁ live, s.LeadsTo s₁ ∧ (s.markPasses root events).1 = .marked stats ∧
        s₁.MarkedOn live root stats (s.markPasses root events).2 := by
  induction events generalizing s with
  | nil =>
    cases hlive : s.live? with
    | none =>
      left
      simp [markPasses, hlive]
    | some live =>
      right
      have hstill : ((s.markPass live root []).2.host.map live).valid = true := by
        rw [markPass_eq, host_withHost, List.foldl_nil, Host.map_updateMap_self (hs live hlive),
          ChangeMap.valid_markAll]
        exact hvalid live hlive
      refine ⟨(s.markPass live root []).1, s, live, .refl s, ?_, ?_⟩
      · simp only [markPasses, hlive, hstill, if_true]
      · simp only [markPasses, hlive, hstill, if_true]
        exact markedOn_markPass hs hlive root hstill
  | cons now later ih =>
    cases hlive : s.live? with
    | none =>
      left
      simp [markPasses, hlive]
    | some live =>
      cases hstill : ((s.markPass live root now).2.host.map live).valid with
      | true =>
        right
        refine ⟨(s.markPass live root now).1, now.foldl interrupt s, live,
          s.leadsTo_interrupts now, ?_, ?_⟩
        · simp only [markPasses, hlive, hstill, if_true]
        · simp only [markPasses, hlive, hstill, if_true]
          exact markedOn_markPass hs hlive root hstill
      | false =>
        have hleads := s.leadsTo_markPass live root now
        have hretires := s.retiresReplaced_markPass live root now
        have heq : s.markPasses root (now :: later)
            = (s.markPass live root now).2.markPasses root later := by
          simp [markPasses, hlive, hstill]
        rw [heq]
        refine (ih (hleads.coherent hs) (hretires.liveValid hvalid)).imp_right ?_
        rintro ⟨stats, s₁, live', hs₁, hmarked⟩
        exact ⟨stats, s₁, live', hleads.trans hs₁, hmarked⟩

/-! ## While the tracker is not stopped -/

/-- The tracker has its live map of `s` still, or one that replaced it, of which the epoch is
known. -/
structure Continues (live : MapId) (s s' : Tracking) : Prop where
  leads : s.LeadsTo s'
  position : s'.host.position = s.host.position
  live : ∃ live', s'.live? = some live' ∧ (live' = live ∨ (s'.host.map live').epoch.known = true)

namespace Continues

lemma markAll (h : s.Continues live s') (hs : s.Coherent) (k : MapId)
    (marks : List (Block × Lsn)) :
    s.Continues live (s'.withHost (s'.host.updateMap k (·.markAll marks))) where
  leads := h.leads.trans (s'.leadsTo_markAll k marks)
  position := h.position
  live := by
    obtain ⟨live', hlive', hor⟩ := h.live
    refine ⟨live', hlive', hor.imp_right fun hknown => ?_⟩
    have hgrows := (s'.leadsTo_markAll k marks).host.map live' (h.leads.coherent hs live' hlive')
    exact Lsn.known_of_le hknown hgrows.epoch_le

lemma replaceMap (h : s.Continues live s') (bytes : UInt64) :
    s.Continues live (s'.replaceMap bytes).2 := by
  refine ⟨h.leads.trans (s'.leadsTo_replaceMap bytes), ?_, ?_⟩
  · rcases s'.replaceMap_cases bytes with ⟨-, heq⟩ | ⟨-, m, -, heq⟩
    · rw [heq]
      exact h.position
    · rw [heq, position_withNewMap, position_retireLive]
      exact h.position
  · obtain ⟨old, hold, -⟩ := h.live
    rcases s'.replaceMap_cases bytes with ⟨-, heq⟩ | ⟨-, m, hm, heq⟩
    · rw [heq]
      exact h.live
    · rw [heq]
      refine ⟨_, live?_withNewMap _ m, .inr ?_⟩
      rw [Host.map_of_maps_eq_push (maps_withNewMap _ m), ChangeMap.epoch_create hm,
        liveMap?_of_live? hold]
      exact Lsn.known_of_le (Lsn.known_next _) (next_le_epochStart _ _)

lemma interrupts (h : s.Continues live s') {now : List Interruption} (hnow : .stop ∉ now) :
    s.Continues live (now.foldl interrupt s') := by
  induction now generalizing s' with
  | nil => exact h
  | cons e rest ih =>
    simp only [List.mem_cons, not_or] at hnow
    cases e with
    | stop => exact absurd rfl hnow.1
    | replaceMap bytes => exact ih (h.replaceMap bytes) hnow.2

lemma markPasses (h : s.Continues live s') (hs : s.Coherent) (root : Walk.Root)
    {events : List (List Interruption)} (hevents : ∀ now ∈ events, .stop ∉ now) :
    s.Continues live (s'.markPasses root events).2 := by
  apply markPasses_induction (P := s.Continues live) _ h
  intro s'' marked now hnow _ h
  have hstop : .stop ∉ now := by
    rcases hnow with rfl | hnow
    · exact List.not_mem_nil
    · exact hevents now hnow
  rw [markPass_eq]
  exact (h.interrupts hstop).markAll hs marked _

/-- What is known at first is known in the end, and the epoch of a replacement always is. -/
lemma known (h : s.Continues live s') (hs : s.Coherent) (hlive : s.live? = some live)
    {live' : MapId} (hlive' : s'.live? = some live')
    (hknown : s.host.position.known = true ∨ (s.host.map live).epoch.known = true ∨ live' ≠ live) :
    s'.host.position.known = true ∨ (s'.host.map live').epoch.known = true := by
  obtain ⟨k, hk, hor⟩ := h.live
  obtain rfl : live' = k := Option.some.inj (hlive'.symm.trans hk)
  rcases hknown with hposition | hepoch | hne
  · left
    rwa [h.position]
  · right
    rcases hor with rfl | hreplaced
    · have hgrows := h.leads.host.map live' (hs live' hlive)
      exact Lsn.known_of_le hepoch hgrows.epoch_le
    · exact hreplaced
  · exact .inr (hor.resolve_left hne)

end Continues

/-- While no position is known, a directory's blocks are counted and nothing is recorded. -/
lemma markDirectory_of_unknown (hs : s.Coherent) (hlive : s.live? = some live)
    (hvalid : (s.host.map live).valid = true) (hexempt : s.tracker.isExempt root.path = false)
    (hposition : s.host.position = Lsn.never) (hepoch : (s.host.map live).epoch = Lsn.never) :
    s.markDirectory root [] =
      (.marked (.ofSegments (root.listing s.host.tree s.tracker.config.versionDirectory)), s) := by
  have hmarks : (s.host.map live).markAll (s.passMarks live root) = s.host.map live := by
    apply ChangeMap.markAll_of_unknown
    rintro ⟨b, l⟩ hmark
    obtain ⟨rfl, -⟩ := ChangeMap.mem_segmentMarks.mp hmark
    rw [hposition, hepoch]
    rfl
  have hpass : s.markPass live root [] =
      (.ofSegments (root.listing s.host.tree s.tracker.config.versionDirectory), s) := by
    rw [markPass_eq, List.foldl_nil, Host.updateMap_of_map_eq (hs live hlive) hmarks]
    rfl
  simp [markDirectory, hexempt, markPasses, hlive, hpass, hvalid]

section Started

variable {config : Config} {isExempt : Path → Bool} {host : Host} {started : Tracking}
  (hstart : start config isExempt host = .ok started)

include hstart

/-- **Directories are marked on the live map.**  When marking a directory says what it marked, then
the map that is live at that moment is valid, the files and blocks that it counts are those of the
walk, and the map has all the blocks in its epoch, so that a scan from the epoch's start reports
them: if the log's position is known, or the epoch.  Unless the tracker is stopped meanwhile, it
does say what it marked, and one of the two is known if it was so at the beginning or if the map was
replaced.  But while neither is known and nothing replaces the map, the blocks are counted and none
is recorded. -/
theorem markDirectory_lands (hs : started.LeadsTo s) (hlive : s.live? = some live)
    (hvalid : (s.host.map live).valid = true) (root : Walk.Root)
    (events : List (List Interruption)) :
    (∀ stats s', s.markDirectory root events = (.marked stats, s') →
      ∃ live', s'.live? = some live' ∧ (s'.host.map live').valid = true ∧
        stats.files = (root.listing s'.host.tree config.versionDirectory).length ∧
        stats.blocks
          = ((root.listing s'.host.tree config.versionDirectory).map Segment.blockCount).sum ∧
        (s'.host.position.known = true ∨ (s'.host.map live').epoch.known = true →
          Recorded s'.host.tree config.versionDirectory root (s'.host.map live'))) ∧
    (s.tracker.isExempt root.path = false → (∀ now ∈ events, .stop ∉ now) →
      ∃ stats s' live', s.markDirectory root events = (.marked stats, s') ∧
        s'.live? = some live' ∧
        (s.host.position.known = true ∨ (s.host.map live).epoch.known = true ∨ live' ≠ live →
          Recorded s'.host.tree config.versionDirectory root (s'.host.map live'))) ∧
    (s.tracker.isExempt root.path = false → s.host.position = Lsn.never →
      (s.host.map live).epoch = Lsn.never →
      s.markDirectory root []
        = (.marked (.ofSegments (root.listing s.host.tree config.versionDirectory)), s)) := by
  have hcoherent := coherent_of_leadsTo hstart hs
  have hconfig := config_of_leadsTo hstart hs
  have hlivevalid : s.LiveValid := by
    intro id hid
    obtain rfl := Option.some.inj (hlive.symm.trans hid)
    exact hvalid
  have hpasses := markPasses_cases hcoherent hlivevalid root events
  refine ⟨?_, ?_, ?_⟩
  · intro stats s' hmark
    unfold markDirectory at hmark
    split at hmark
    · cases hmark
    · rw [hmark] at hpasses
      rcases hpasses with ⟨hskipped, -⟩ | ⟨stats', s₁, live', hs₁, hstats, hmarked⟩
      · cases hskipped
      · cases hstats
        rw [← hs₁.config.trans hconfig]
        exact ⟨live', hmarked.live?_eq, hmarked.valid_map, hmarked.files_eq, hmarked.blocks_eq,
          hmarked.recorded⟩
  · intro hexempt hevents
    have hcontinues : s.Continues live (s.markPasses root events).2 :=
      Continues.markPasses ⟨.refl s, rfl, live, hlive, .inl rfl⟩ hcoherent root hevents
    rcases hpasses with ⟨-, hnone⟩ | ⟨stats, s₁, live', hs₁, hstats, hmarked⟩
    · obtain ⟨live', hlive', -⟩ := hcontinues.live
      rw [hnone] at hlive'
      cases hlive'
    · refine ⟨stats, _, live', ?_, hmarked.live?_eq, fun hknown => ?_⟩
      · rw [markDirectory, hexempt, if_neg (by decide), ← hstats]
      · rw [← hs₁.config.trans hconfig]
        exact hmarked.recorded (hcontinues.known hcoherent hlive hmarked.live?_eq hknown)
  · intro hexempt hposition hepoch
    rw [← hconfig]
    exact markDirectory_of_unknown hcoherent hlive hvalid hexempt hposition hepoch

end Started

/-- A data directory with one relation, of one block. -/
def databaseTree : Tree where
  entries :=
    [([.ofText "data"], .directory true),
      ([.ofText "base", .ofText "data"], .directory true),
      ([.ofText "5", .ofText "base", .ofText "data"], .directory true),
      ([.ofText "16384", .ofText "5", .ofText "base", .ofText "data"],
        .file (.zeros blockSize))]
  working := .root
  nodup := by decide

/-- The directory of its database. -/
def databaseRoot : Walk.Root := ⟨⟨"data/base/5"⟩, ⟨defaultTablespace, 5⟩⟩

/-- Where the file of a relation is all that is in the directory, it is all that is to be marked. -/
lemma listing_databaseRoot {t : Tree} {f : Segment}
    (hresolve : t.resolve ⟨"data/base/5"⟩
      = .ok (.inTree [⟨"5", by decide⟩, ⟨"base", by decide⟩, ⟨"data", by decide⟩]))
    (hfind : t.find? [⟨"5", by decide⟩, ⟨"base", by decide⟩, ⟨"data", by decide⟩]
      = some (.directory true))
    (hchildren : t.children [⟨"5", by decide⟩, ⟨"base", by decide⟩, ⟨"data", by decide⟩]
      = [(⟨"16384", by decide⟩, .file (.zeros blockSize))])
    (hlook : Walk.lookAt t "v1" ⟨"data/base/5"⟩ ⟨defaultTablespace, 5⟩
      ⟨⟨"16384", by decide⟩, .file⟩ = .file f) :
    databaseRoot.listing t "v1" = [f] := by
  have hleads : t.leadsSomewhere ⟨"data/base/5"⟩ = true := by
    rw [Tree.leadsSomewhere, hresolve]
    rfl
  have hlist : t.listDirectory ⟨"data/base/5"⟩ = .ok [⟨⟨"16384", by decide⟩, .file⟩] := by
    simp [Tree.listDirectory, hresolve, Tree.findAt?, hfind, Tree.childrenAt, hchildren, Node.kind,
      bind, Except.bind, pure, Except.pure]
  obtain ⟨room, hroom⟩ := exists_roomFor ⟨"data/base/5"⟩ 0 (by decide +kernel)
  rw [Walk.Root.listing, databaseRoot, if_pos hleads, hroom, listing_of_singleton hlist,
    Walk.segmentsOf, hlook]

lemma listing_databaseTree :
    databaseRoot.listing databaseTree "v1" =
      [segmentOf "v1" ⟨"data/base/5"⟩ ⟨defaultTablespace, 5⟩ ⟨16384, .main, 0⟩ blockSize] :=
  listing_databaseRoot (by decide +kernel) (by decide +kernel) (by decide +kernel) rfl

/-- A relation is marked at the start of the epoch of the map that replaced the live one, where the
log's position went back to none. -/
theorem markDirectory_lands_replaced :
    ∃ s stats s' live',
      start ⟨⟨"data"⟩, 8, "v1", some ⟨"x/m"⟩⟩ exemptNone ⟨databaseTree, ⟨50⟩, #[]⟩ = .ok s ∧
      (s.run [.advance ⟨0⟩]).markDirectory databaseRoot [[.replaceMap 16]] = (.marked stats, s') ∧
      s'.live? = some live' ∧ Recorded s'.host.tree "v1" databaseRoot (s'.host.map live') := by
  obtain ⟨s, hstart, hlive, hvalid, hepoch, hexempt⟩ :
      ∃ s, start ⟨⟨"data"⟩, 8, "v1", some ⟨"x/m"⟩⟩ exemptNone ⟨databaseTree, ⟨50⟩, #[]⟩ = .ok s ∧
        (s.run [.advance ⟨0⟩]).live? = some 0 ∧
        ((s.run [.advance ⟨0⟩]).host.map 0).valid = true ∧
        ((s.run [.advance ⟨0⟩]).host.map 0).epoch.known = true ∧
        (s.run [.advance ⟨0⟩]).tracker.isExempt databaseRoot.path = false :=
    ⟨_, rfl, rfl, rfl, rfl, rfl⟩
  obtain ⟨stats, s', live', hmark, hlive', hrecorded⟩ :=
    (markDirectory_lands hstart (s.leadsTo_run [.advance ⟨0⟩]) hlive hvalid databaseRoot
      [[.replaceMap 16]]).2.1 hexempt (by simp)
  exact ⟨s, stats, s', live', hstart, hmark, hlive', hrecorded (.inr (.inl hepoch))⟩

/-- A tracker that was started when nothing had been written to the log counts the block of a
directory and does not record it. -/
theorem markDirectory_counts_unrecorded :
    ∃ s, start ⟨⟨"data"⟩, 8, "v1", some ⟨"x/m"⟩⟩ exemptNone ⟨databaseTree, ⟨0⟩, #[]⟩ = .ok s ∧
      s.live? = some 0 ∧ (s.host.map 0).valid = true ∧
      s.markDirectory databaseRoot [] = (.marked ⟨1, 1⟩, s) ∧
      ∃ f ∈ databaseRoot.listing s.host.tree "v1",
        0 < f.blockCount ∧ (s.host.map 0).read (f.block 0) = Lsn.never := by
  obtain ⟨s, hstart, hlive, hvalid, hposition, hepoch, hexempt, htree, hversion, hslots⟩ :
      ∃ s, start ⟨⟨"data"⟩, 8, "v1", some ⟨"x/m"⟩⟩ exemptNone ⟨databaseTree, ⟨0⟩, #[]⟩ = .ok s ∧
        s.live? = some 0 ∧ (s.host.map 0).valid = true ∧ s.host.position = Lsn.never ∧
        (s.host.map 0).epoch = Lsn.never ∧ s.tracker.isExempt databaseRoot.path = false ∧
        s.host.tree = databaseTree ∧ s.tracker.config.versionDirectory = "v1" ∧
        (s.host.map 0).slots = #[Lsn.never] :=
    ⟨_, rfl, rfl, rfl, rfl, rfl, rfl, rfl, rfl, rfl⟩
  refine ⟨s, hstart, hlive, hvalid, ?_,
    segmentOf "v1" ⟨"data/base/5"⟩ ⟨defaultTablespace, 5⟩ ⟨16384, .main, 0⟩ blockSize, ?_, ?_, ?_⟩
  · rw [markDirectory_of_unknown (coherent_of_started (started_of_start hstart).2) hlive hvalid
      hexempt hposition hepoch, htree, hversion, listing_databaseTree]
    rfl
  · rw [htree, listing_databaseTree]
    exact List.mem_singleton_self _
  · decide +kernel
  · rw [ChangeMap.read_eq_slot, ChangeMap.slot, hslots]
    cases h : (s.host.map 0).slotOf _ <;> rfl

end Tracking

end ChangeTracking
