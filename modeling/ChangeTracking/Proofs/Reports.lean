import ChangeTracking.Proofs.Run
import ChangeTracking.Proofs.Scanning
import ChangeTracking.Proofs.Walks

/-!
# Marked blocks are reported

A map stays live for as long as nothing replaces it and nothing stops the tracker: the actions are
*calm*.  What was marked on it, alone or with its whole directory, is then reported by every scan
with a baseline at or before the mark, in the pagemap of the segment file that the block falls into
(`openScan_reports`).  It takes that the walk gets there.  A directory that cannot be listed and a
file that cannot be looked up are passed over, without which the report would be complete
(`openScan_passes_over`).
-/

namespace ChangeTracking

/-- Whether an action leaves the live map in place. -/
def Action.Calm : Action → Prop
  | .markDirectory _ events => ∀ now ∈ events, now = []
  | .replaceMap _ | .stop => False
  | _ => True

namespace Tracking

variable {s : Tracking} {live : MapId}

/-- Whether an action marks a block at a position on the live map. -/
def Marks (s : Tracking) (b : Block) (l : Lsn) : Action → Prop
  | .mark c l' => c = b ∧ l' = l
  | .markDirectory root _ =>
    s.tracker.isExempt root.path = false ∧
      ∃ m, s.liveMap? = some m ∧ l = s.host.position.latest m.epoch ∧
        ∃ segment ∈ root.listing s.host.tree s.tracker.config.versionDirectory,
          ∃ offset < segment.blockCount, b = segment.block offset
  | _ => False

/-! ## Calm runs -/

/-- `s'` is what may have become of `s` with the same valid map as its live map. -/
structure Keeps (live : MapId) (s s' : Tracking) : Prop where
  leads : s.LeadsTo s'
  same : s'.live? = s.live?
  valid : (s'.host.map live).valid = (s.host.map live).valid

namespace Keeps

lemma refl (live : MapId) (s : Tracking) : s.Keeps live s := ⟨.refl s, rfl, rfl⟩

lemma trans {s₁ s₂ s₃ : Tracking} (h : s₁.Keeps live s₂) (h' : s₂.Keeps live s₃) :
    s₁.Keeps live s₃ where
  leads := h.leads.trans h'.leads
  same := h'.same.trans h.same
  valid := h'.valid.trans h.valid

end Keeps

lemma keeps_markAll (s : Tracking) (id : MapId) (marks : List (Block × Lsn)) :
    s.Keeps live (s.withHost (s.host.updateMap id (·.markAll marks))) where
  leads := s.leadsTo_markAll id marks
  same := rfl
  valid := by
    rw [host_withHost, Host.map_updateMap]
    split
    · exact ChangeMap.valid_markAll _ _
    · rfl

/-- Without an interruption one pass marks the directory. -/
lemma markDirectory_eq (hlive : s.live? = some live) (hvalid : (s.host.map live).valid = true)
    {root : Walk.Root} {events : List (List Interruption)} (hevents : ∀ now ∈ events, now = [])
    (hexempt : s.tracker.isExempt root.path = false) :
    (s.markDirectory root events).2 = (s.markPass live root []).2 := by
  have hpass : ((s.markPass live root []).2.host.map live).valid = true := by
    rw [markPass_eq]
    exact (s.keeps_markAll live _).valid.trans hvalid
  rw [markDirectory, hexempt, if_neg (by decide)]
  cases events with
  | nil => simp [markPasses, hlive, hpass]
  | cons now later =>
    obtain rfl := hevents now List.mem_cons_self
    simp [markPasses, hlive, hpass]

lemma keeps_step (hlive : s.live? = some live) (hvalid : (s.host.map live).valid = true)
    {a : Action} (ha : a.Calm) : s.Keeps live (s.step a) := by
  cases a with
  | mark b l =>
    rw [step, mark_eq hlive]
    exact s.keeps_markAll live _
  | markDirectory root events =>
    cases hexempt : s.tracker.isExempt root.path with
    | true =>
      rw [step, markDirectory, hexempt, if_pos rfl]
      exact .refl live s
    | false =>
      rw [step, markDirectory_eq hlive hvalid ha hexempt, markPass_eq]
      exact s.keeps_markAll live _
  | replaceMap bytes => exact ha.elim
  | checkpoint =>
    refine ⟨s.leadsTo_checkpoint, s.live?_checkpoint, ?_⟩
    rw [step, Host.map, maps_checkpoint, Host.map]
  | stop => exact ha.elim
  | scan baseline => exact .refl live s
  | advance position => exact ⟨s.leadsTo_step _, rfl, rfl⟩
  | changeTree tree => exact ⟨s.leadsTo_step _, rfl, rfl⟩

lemma keeps_run (hlive : s.live? = some live) (hvalid : (s.host.map live).valid = true)
    {actions : List Action} (hcalm : ∀ a ∈ actions, a.Calm) : s.Keeps live (s.run actions) := by
  induction actions generalizing s with
  | nil => exact .refl live s
  | cons a rest ih =>
    have hstep := keeps_step hlive hvalid (hcalm a List.mem_cons_self)
    exact hstep.trans (ih (hstep.same.trans hlive) (hstep.valid.trans hvalid)
      fun b hb => hcalm b (List.mem_cons_of_mem a hb))

/-! ## Marks -/

/-- What an action marks is read from then on. -/
lemma le_read_step (hs : s.Coherent) (hlive : s.live? = some live)
    (hvalid : (s.host.map live).valid = true) {a : Action} (ha : a.Calm) {b : Block} {l : Lsn}
    (hmarks : s.Marks b l a) : l ≤ ((s.step a).host.map live).read b := by
  cases a with
  | mark c l' =>
    obtain ⟨rfl, rfl⟩ := hmarks
    rw [step, mark_eq hlive, host_withHost, Host.map_updateMap_self (hs live hlive)]
    exact ChangeMap.le_read_markAll (by simp)
  | markDirectory root events =>
    obtain ⟨hexempt, m, hm, rfl, segment, hsegment, offset, hoffset, rfl⟩ := hmarks
    obtain rfl := Option.some.inj ((liveMap?_of_live? hlive).symm.trans hm)
    rw [step, markDirectory_eq hlive hvalid ha hexempt, markPass_eq, host_withHost,
      List.foldl_nil, Host.map_updateMap_self (hs live hlive)]
    exact ChangeMap.le_read_markAll
      (ChangeMap.mem_segmentMarks.mpr ⟨rfl, segment, hsegment, offset, hoffset, rfl⟩)
  | replaceMap | checkpoint | stop | scan | advance | changeTree => exact hmarks.elim

/-- What was marked in a calm run can be read at the end of it. -/
lemma le_read_run (hs : s.Coherent) (hlive : s.live? = some live)
    (hvalid : (s.host.map live).valid = true) {before after : List Action} {a : Action}
    (hcalm : ∀ c ∈ before ++ a :: after, c.Calm) {b : Block} {l : Lsn}
    (hmarks : (s.run before).Marks b l a) :
    l ≤ ((s.run (before ++ a :: after)).host.map live).read b := by
  have hbefore := keeps_run hlive hvalid fun c hc => hcalm c (List.mem_append_left _ hc)
  have hcoherent := hbefore.leads.coherent hs
  have hlive' := hbefore.same.trans hlive
  have hvalid' := hbefore.valid.trans hvalid
  have hread := le_read_step hcoherent hlive' hvalid' (hcalm a (by simp)) hmarks
  have hstep := (s.run before).leadsTo_step a
  have hrest := ((s.run before).step a).leadsTo_run after
  have hkept : live < ((s.run before).step a).host.maps.size :=
    (hcoherent live hlive').trans_le hstep.host.size
  rw [run_append, run_cons]
  exact hread.trans ((hrest.host.map live hkept).read_le b)

/-! ## Reports -/

lemma openScan_eq (hlive : s.live? = some live) (baseline : Lsn) :
    s.openScan baseline = .ok ⟨live, .ofWalker baseline (.ofDataDirectory
      s.tracker.config.versionDirectory s.tracker.config.dataDirectory)⟩ := by
  simp only [openScan, hlive]

/-- A scan of a valid live map yields all that its walk comes to. -/
lemma mem_run_openScan {o : OpenScan} (hvalid : (s.host.map live).valid = true)
    (hlive : s.live? = some live) {baseline : Lsn} (hopen : s.openScan baseline = .ok o)
    {segment : Segment} {pagemap : Pagemap}
    (hsegment : segment ∈ (Walker.ofDataDirectory s.tracker.config.versionDirectory
      s.tracker.config.dataDirectory).segments s.host.tree)
    (hpagemap : (s.host.map live).pagemap? baseline segment = some pagemap) :
    .ok pagemap ∈ (o.run s.host).1 := by
  rw [openScan_eq hlive, Except.ok.injEq] at hopen
  subst hopen
  have hrun := Scan.run_fst (t := s.host.tree) hvalid
    (s := .ofWalker baseline (.ofDataDirectory s.tracker.config.versionDirectory
      s.tracker.config.dataDirectory)) rfl
  simp only [OpenScan.run, hrun]
  exact List.mem_map_of_mem (List.mem_filterMap.mpr ⟨segment, hsegment, hpagemap⟩)

lemma dataDirectory_ne_of_check {config : Config} (h : config.check = .ok ()) :
    config.dataDirectory.text ≠ "" := by
  intro hempty
  simp [Config.check, hempty] at h

section Started

variable {config : Config} {isExempt : Path → Bool} {host : Host} {started : Tracking}
  (hstart : start config isExempt host = .ok started)

include hstart

lemma dataDirectory_ne_of_start : config.dataDirectory.text ≠ "" :=
  dataDirectory_ne_of_check (started_of_start hstart).1

/-- **Marked blocks are reported.**  Whatever has become of a started tracker: every block that is
marked while its live map stays live is reported at every baseline at or before the mark, wherever
there is a segment file that has the block or ends right before it, if the directories that lead to
the file can be listed and the file can be looked up. -/
theorem openScan_reports (hs : started.LeadsTo s)
    (hversion : OrdinaryVersion config.versionDirectory)
    (hlive : s.live? = some live) (hvalid : (s.host.map live).valid = true)
    {before after : List Action} {a : Action} (hcalm : ∀ c ∈ before ++ a :: after, c.Calm)
    {b : Block} {l baseline : Lsn} (hmarks : (s.run before).Marks b l a) (hknown : l.known = true)
    (hle : baseline ≤ l) {dir : Path} {contents : Contents}
    (hhoused : Housed (s.run (before ++ a :: after)).host.tree config.dataDirectory
      config.versionDirectory b.relation dir)
    (hfile : (s.run (before ++ a :: after)).host.tree.entryAt?
      (config.dataDirectory.join (Layout.segmentPath b.relation b.fork
        (UInt32.ofNat (b.number.toNat / blocksPerSegment)) config.versionDirectory))
      = .ok (.file contents))
    (hsize : b.number.toNat % blocksPerSegment ≤ contents.size / blockSize) :
    ∃ o, (s.run (before ++ a :: after)).openScan baseline = .ok o ∧
      ∃ pagemap, .ok pagemap ∈ (o.run (s.run (before ++ a :: after)).host).1 ∧
        pagemap.path = Layout.segmentPath b.relation b.fork
          (UInt32.ofNat (b.number.toNat / blocksPerSegment)) config.versionDirectory ∧
        pagemap.blocks.contains (b.number.toNat % blocksPerSegment) = true := by
  have hdata := dataDirectory_ne_of_start hstart
  have hkeeps := keeps_run hlive hvalid hcalm
  have hconfig := hkeeps.leads.config.trans (config_of_leadsTo hstart hs)
  have hread := le_read_run (coherent_of_leadsTo hstart hs) hlive hvalid hcalm hmarks
  rw [join_segmentPath hdata hversion hhoused] at hfile
  obtain ⟨segment, hmem, hrelation, hfork, hindex, hcontents, hpath⟩ :=
    mem_segments_of_housed hdata hversion hhoused hfile
  have hnumber : segment.index.toNat = b.number.toNat / blocksPerSegment := by
    rw [hindex, UInt32.toNat_ofNat']
    exact Nat.mod_eq_of_lt (Nat.lt_of_le_of_lt (Nat.div_le_self _ _) b.number.toNat_lt)
  have hblock := Segment.block_of_number hrelation hfork hnumber
  have hchanged : b.number.toNat % blocksPerSegment ∈
      ((s.run (before ++ a :: after)).host.map live).changedOffsets baseline segment := by
    have hlt : b.number.toNat % blocksPerSegment < blocksPerSegment := Nat.mod_lt _ (by decide)
    rw [ChangeMap.mem_changedOffsets, hblock]
    refine ⟨?_, ?_, hle.trans hread⟩
    · rw [Segment.blockCount, hcontents]
      omega
    · intro hnever
      rw [hnever, Lsn.le_never_iff] at hread
      exact Lsn.known_iff.mp hknown hread
  obtain ⟨pagemap, hpagemap, hpagemapPath, hcontains⟩ := ChangeMap.exists_pagemap hchanged
  have hopen := openScan_eq (hkeeps.same.trans hlive) baseline
  refine ⟨_, hopen, pagemap, ?_, hpagemapPath.trans hpath, hcontains⟩
  refine mem_run_openScan (hkeeps.valid.trans hvalid) (hkeeps.same.trans hlive) hopen ?_ hpagemap
  rw [hconfig]
  exact hmem

end Started

/-- A data directory `d` with a relation in a tablespace behind a link.  The path `l3` leads to `d`
as well, by as many links as can be followed. -/
def linkedTree : Tree where
  entries :=
    [([.ofText "d"], .directory true),
      ([.ofText "pg_tblspc", .ofText "d"], .directory true),
      ([.ofText "16500", .ofText "pg_tblspc", .ofText "d"], .link "../../t"),
      ([.ofText "t"], .directory true),
      ([.ofText "v1", .ofText "t"], .directory true),
      ([.ofText "5", .ofText "v1", .ofText "t"], .directory true),
      ([.ofText "16384", .ofText "5", .ofText "v1", .ofText "t"],
        .file (.zeros 0)),
      ([.ofText "l0"], .link "d"), ([.ofText "l1"], .link "l0/../l0/../l0"),
      ([.ofText "l2"], .link "l1/../l1/../l1"), ([.ofText "l3"], .link "l2/../l2/../l2")]
  working := .root
  nodup := by decide

/-- By the path `d` the relation in the tablespace is where a walk gets to. -/
lemma housed_linkedTree :
    Housed linkedTree ⟨"d"⟩ "v1" ⟨16500, 5, 16384⟩
      (((((Path.mk "d").join "pg_tblspc").join (Layout.oidText 16500)).join "v1").join
        (Layout.oidText 5)) := by
  have hlink : linkedTree.entryAt? (((Path.mk "d").join "pg_tblspc").join (Layout.oidText 16500))
      = .ok (.link "../../t") := by decide +kernel
  refine .inTablespace (by decide) (by decide) ?_ hlink ?_ ?_ ?_ <;> decide +kernel

/-- A block right behind the end of a file in a tablespace is reported. -/
theorem openScan_reports_in_tablespace :
    ∃ s, start ⟨⟨"d"⟩, 8, "v1", some ⟨"x/m"⟩⟩ exemptNone ⟨linkedTree, ⟨50⟩, #[]⟩ = .ok s ∧
      ∃ o, (s.run [.mark ⟨⟨16500, 5, 16384⟩, .main, 0⟩ ⟨100⟩]).openScan ⟨70⟩ = .ok o ∧
        ∃ pagemap, .ok pagemap ∈
            (o.run (s.run [.mark ⟨⟨16500, 5, 16384⟩, .main, 0⟩ ⟨100⟩]).host).1 ∧
          pagemap.path = Layout.segmentPath ⟨16500, 5, 16384⟩ .main 0 "v1" ∧
          pagemap.blocks.contains 0 = true := by
  obtain ⟨s, hstart, hlive, hvalid, htree⟩ :
      ∃ s, start ⟨⟨"d"⟩, 8, "v1", some ⟨"x/m"⟩⟩ exemptNone ⟨linkedTree, ⟨50⟩, #[]⟩ = .ok s ∧
        s.live? = some 0 ∧ (s.host.map 0).valid = true ∧
        (s.run [.mark ⟨⟨16500, 5, 16384⟩, .main, 0⟩ ⟨100⟩]).host.tree = linkedTree :=
    ⟨_, rfl, rfl, rfl, rfl⟩
  have hcalm : ∀ c ∈ ([] : List Action) ++ .mark ⟨⟨16500, 5, 16384⟩, .main, 0⟩ ⟨100⟩ :: [],
      c.Calm := by
    simp [Action.Calm]
  have hhoused := housed_linkedTree
  have hfile : linkedTree.entryAt? ((Path.mk "d").join
      (Layout.segmentPath ⟨16500, 5, 16384⟩ .main 0 "v1")) = .ok (.file (.zeros 0)) := by
    decide +kernel
  rw [← htree] at hhoused hfile
  exact ⟨s, hstart, openScan_reports hstart (.refl s) ⟨by decide, by decide, by decide⟩ hlive hvalid
    hcalm ⟨rfl, rfl⟩ rfl (by decide) hhoused hfile (by decide)⟩

/-- By the path `l3` a walk gets as far as the link to the tablespace, and cannot follow it. -/
lemma segments_linkedTree : (Walker.ofDataDirectory "v1" ⟨"l3"⟩).segments linkedTree = [] := by
  have hglobal : linkedTree.leadsSomewhere ((Path.mk "l3").join "global") = false := by
    decide +kernel
  have hbase : linkedTree.leadsSomewhere ((Path.mk "l3").join "base") = false := by decide +kernel
  have hresolve : linkedTree.resolve ((Path.mk "l3").join "pg_tblspc")
      = .ok (.inTree [⟨"pg_tblspc", by decide⟩, ⟨"d", by decide⟩]) := by decide +kernel
  have hentry : linkedTree.entryAt? ((Path.mk "l3").join "pg_tblspc") = .ok (.directory true) := by
    decide +kernel
  have hfind : linkedTree.find? [⟨"pg_tblspc", by decide⟩, ⟨"d", by decide⟩]
      = some (.directory true) := by decide +kernel
  have hchildren : linkedTree.children [⟨"pg_tblspc", by decide⟩, ⟨"d", by decide⟩]
      = [(⟨"16500", by decide⟩, .link "../../t")] := by decide +kernel
  have hlist : linkedTree.listDirectory ((Path.mk "l3").join "pg_tblspc")
      = .ok [⟨⟨"16500", by decide⟩, .link⟩] := by
    simp [Tree.listDirectory, hresolve, Tree.findAt?, hfind, Tree.childrenAt, hchildren, Node.kind,
      bind, Except.bind, pure, Except.pure]
  have hspace : linkedTree.isListable (((Path.mk "l3").join "pg_tblspc").join "16500") = false := by
    decide +kernel
  have htemporary : Layout.isTemporaryName "16500" = false := by decide +kernel
  have henter : Context.unknown.enter? "v1" "16500" .link = some ⟨16500, noOid⟩ := by
    decide +kernel
  have hlook : Walk.lookAt linkedTree "v1" ((Path.mk "l3").join "pg_tblspc") .unknown
      ⟨⟨"16500", by decide⟩, .link⟩ = .enter ⟨16500, noOid⟩ := by
    simp [Walk.lookAt, htemporary, henter]
  obtain ⟨room, hroom⟩ := exists_roomFor ((Path.mk "l3").join "pg_tblspc") 0
    (Tree.size_lt_of_entryAt? hentry)
  have hspaces : Walk.listing linkedTree "v1" (Walk.roomFor ((Path.mk "l3").join "pg_tblspc"))
      ((Path.mk "l3").join "pg_tblspc") .unknown = [] := by
    rw [hroom, listing_of_singleton hlist, Walk.segmentsOf, hlook]
    exact listing_eq_nil hspace room
  simp [Walker.segments, Walker.ofDataDirectory, Walker.ofRoots, Walk.Root.listing, hglobal, hbase,
    hspaces]

/-- A marked block that no scan reports, although the data directory has the file: the path to the
data directory follows so many links that the one to the tablespace cannot be followed any more. -/
theorem openScan_passes_over :
    ∃ s, start ⟨⟨"l3"⟩, 8, "v1", some ⟨"x/m"⟩⟩ exemptNone ⟨linkedTree, ⟨50⟩, #[]⟩ = .ok s ∧
      (s.run [.mark ⟨⟨16500, 5, 16384⟩, .main, 0⟩ ⟨100⟩]).host.tree = linkedTree ∧
      linkedTree.resolve ⟨"l3"⟩ = linkedTree.resolve ⟨"d"⟩ ∧
      linkedTree.entryAt? ⟨"d/pg_tblspc/16500"⟩ = .ok (.link "../../t") ∧
      linkedTree.entryAt? ⟨"d/pg_tblspc/16500/v1/5/16384"⟩ = .ok (.file (.zeros 0)) ∧
      (s.run [.mark ⟨⟨16500, 5, 16384⟩, .main, 0⟩ ⟨100⟩]).live? = some 0 ∧
      ((s.run [.mark ⟨⟨16500, 5, 16384⟩, .main, 0⟩ ⟨100⟩]).host.map 0).valid = true ∧
      ∃ o, (s.run [.mark ⟨⟨16500, 5, 16384⟩, .main, 0⟩ ⟨100⟩]).openScan ⟨100⟩ = .ok o ∧
        (o.run (s.run [.mark ⟨⟨16500, 5, 16384⟩, .main, 0⟩ ⟨100⟩]).host).1 = [] := by
  obtain ⟨s, hstart, hlive, hvalid, hconfig, htree⟩ :
      ∃ s, start ⟨⟨"l3"⟩, 8, "v1", some ⟨"x/m"⟩⟩ exemptNone ⟨linkedTree, ⟨50⟩, #[]⟩ = .ok s ∧
        (s.run [.mark ⟨⟨16500, 5, 16384⟩, .main, 0⟩ ⟨100⟩]).live? = some 0 ∧
        ((s.run [.mark ⟨⟨16500, 5, 16384⟩, .main, 0⟩ ⟨100⟩]).host.map 0).valid = true ∧
        (s.run [.mark ⟨⟨16500, 5, 16384⟩, .main, 0⟩ ⟨100⟩]).tracker.config
          = ⟨⟨"l3"⟩, 8, "v1", some ⟨"x/m"⟩⟩ ∧
        (s.run [.mark ⟨⟨16500, 5, 16384⟩, .main, 0⟩ ⟨100⟩]).host.tree = linkedTree :=
    ⟨_, rfl, rfl, rfl, rfl, rfl⟩
  refine ⟨s, hstart, htree, ?_, ?_, ?_, hlive, hvalid, _, openScan_eq hlive ⟨100⟩, ?_⟩
  · decide +kernel
  · decide +kernel
  · decide +kernel
  · have hrun := Scan.run_fst (t := linkedTree) hvalid
      (s := .ofWalker ⟨100⟩ (.ofDataDirectory "v1" ⟨"l3"⟩)) rfl
    simp only [OpenScan.run, hconfig, htree]
    rw [hrun, Scan.pagemaps, Scan.ofWalker, segments_linkedTree]
    rfl

end Tracking

end ChangeTracking
