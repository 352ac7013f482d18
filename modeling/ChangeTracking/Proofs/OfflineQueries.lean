import ChangeTracking.CommandLine.Command
import ChangeTracking.Proofs.BulkMarks
import ChangeTracking.Proofs.LsnText
import ChangeTracking.Proofs.Reports
import ChangeTracking.Proofs.SideFiles

/-!
# The persisted map answers as the live one does

A map that was kept on disk can be asked without the tracker.  Three things have to come to the same
for the answers to agree: the map that is read back (`MapFile.load_put`), the position that a text
names (`Lsn.NamedBy`), and what the walk finds, in a tree in which the map's file has taken its
place (`segments_eq_of_apart`).  Then a request for what changed gives just the pagemaps that a scan
of the live map has yielded, in their order, and the start of the epoch is the live map's
(`queries_agree`).

The map's file takes the place of whatever its path names.  If that is a link to a directory, it cuts
the ways that lead over the link, and what is behind it is not reported any more
(`queries_differ_behind_link`).
-/

namespace ChangeTracking

/-- A text names a position: it is one of the two forms in which positions are written, or any other
text that is read as this position. -/
def Lsn.NamedBy (l : Lsn) (text : String) : Prop :=
  text = l.render ∨ text = String.ofList (Text.decimal l.val.toNat) ∨ Lsn.parse text = .ok l

lemma Lsn.NamedBy.parse {l : Lsn} {text : String} (h : l.NamedBy text) :
    Lsn.parse text = .ok l := by
  rcases h with rfl | rfl | h
  · exact parse_render l
  · exact parse_decimal l
  · exact h

namespace CommandLine

/-- A request for what changed since a baseline, about the data directory and the map of a tracker
with the given settings. -/
structure PagemapRequest.Asks (r : PagemapRequest) (config : Config) (baseline : Lsn) : Prop where
  data : r.dataDirectory? = some config.dataDirectory
  mapFile : r.mapFile? = config.mapFile?
  version : r.versionDirectory?.getD Layout.defaultVersionDirectory = config.versionDirectory
  baseline : ∃ text, r.baseline? = some text ∧ baseline.NamedBy text

section Requests

variable {t : Tree} {config : Config} {m : ChangeMap}
  (hload : MapFile.load t config.mapLocation = .ok (some m))

/-- A request's settings are accepted where the tracker's are: they ask for no tracking. -/
lemma check_config {r : PagemapRequest} (hcheck : config.check = .ok ())
    (hversion : r.versionDirectory?.getD Layout.defaultVersionDirectory = config.versionDirectory) :
    (r.config config.dataDirectory).check = .ok () := by
  have hoff : (r.config config.dataDirectory).tracks = false := rfl
  unfold Config.check at hcheck ⊢
  rw [hoff]
  simp only [PagemapRequest.config, hversion, Config.ofDataDirectory]
  split at hcheck
  · cases hcheck
  · split at hcheck
    · cases hcheck
    · next hdata hgood =>
      rw [if_neg hdata, if_neg hgood]
      rfl

include hload

lemma savedEpoch_of_load :
    savedEpoch t (some config.dataDirectory) config.mapFile? = .ok m.epoch := by
  have hdefault : config.mapFile? = none →
      (Config.ofDataDirectory config.dataDirectory).mapLocation = config.mapLocation := by
    intro hnone
    simp [Config.mapLocation, hnone, Config.ofDataDirectory]
  cases hfile : config.mapFile? with
  | none => simp [savedEpoch, savedMap, hdefault hfile, hload, Except.map]
  | some file =>
    have hlocation : config.mapLocation = file := by simp [Config.mapLocation, hfile]
    rw [hlocation] at hload
    simp [savedEpoch, savedMap, hload, Except.map]

/-- A request is answered by the pagemaps of all that the walk finds. -/
lemma changedPagemaps_of_load {r : PagemapRequest} {baseline : Lsn}
    (hcheck : config.check = .ok ()) (hasks : r.Asks config baseline) :
    changedPagemaps t r = .ok (((Walker.ofDataDirectory config.versionDirectory
      config.dataDirectory).segments t).filterMap (m.pagemap? baseline)) := by
  obtain ⟨text, htext, hnamed⟩ := hasks.baseline
  have hlocation : (r.config config.dataDirectory).mapLocation = config.mapLocation := by
    simp [Config.mapLocation, PagemapRequest.config, Config.ofDataDirectory, hasks.mapFile]
  have hversion : (r.config config.dataDirectory).versionDirectory = config.versionDirectory :=
    hasks.version
  have hdata : (r.config config.dataDirectory).dataDirectory = config.dataDirectory := rfl
  have hmap : savedMap t config.mapLocation = .ok m := by rw [savedMap, hload]
  have hrun := Scan.run_fst (t := t) (MapFile.valid_of_load hload)
    (s := .ofWalker baseline (.ofDataDirectory config.versionDirectory config.dataDirectory)) rfl
  have hcollect : ∀ pagemaps : List Pagemap,
      (pagemaps.map fun pagemap => (.ok pagemap : Except Error Pagemap)).mapM id
        = .ok pagemaps := by
    intro pagemaps
    induction pagemaps with
    | nil => rfl
    | cons pagemap rest ih =>
      rw [List.map_cons, List.mapM_cons, ih]
      rfl
  simp only [changedPagemaps, hasks.data, htext, hnamed.parse, check_config hcheck hasks.version,
    hlocation, hversion, hdata, hmap, hrun, bind, Except.bind, hcollect]
  rfl

end Requests

end CommandLine

namespace Tracking

open CommandLine

variable {s : Tracking} {live : MapId}

/-- A checkpoint that succeeds keeps the live map. -/
lemma save_of_checkpoint (hlive : s.live? = some live) (h : s.checkpoint.1 = .ok ()) :
    MapFile.save s.host.tree s.tracker.config.mapLocation (s.host.map live)
      = .ok s.checkpoint.2.host.tree := by
  rcases s.checkpoint_cases with ⟨hnone, -⟩ | ⟨live', hlive', ⟨e, -, heq⟩ | ⟨tree, hsave, heq⟩⟩
  · cases hlive.symm.trans hnone
  · rw [heq] at h
    cases h
  · obtain rfl := Option.some.inj (hlive.symm.trans hlive')
    rw [heq]
    exact hsave

lemma tree_stop (s : Tracking) : s.stop.host.tree = s.checkpoint.2.host.tree := by
  rw [stop_eq]
  exact tree_retireLive _

section Started

variable {config : Config} {isExempt : Path → Bool} {host : Host} {started : Tracking}
  (hstart : start config isExempt host = .ok started)

include hstart

/-- **The persisted map answers as the live one does.**  When a checkpoint of an active tracker
succeeds, or the tracker stops and keeps its map, and the map's file cuts no way and is not found by
the walk, then what a scan of the live map has yielded just before is what a request for the changes
since the same baseline is answered with, pagemap by pagemap, and the start of the persisted map's
epoch is that of the live one. -/
theorem queries_agree (hs : started.LeadsTo s) (hlive : s.live? = some live)
    (hvalid : (s.host.map live).valid = true) (hsaved : s.checkpoint.1 = .ok ())
    {after : Tracking} (hafter : after = s.checkpoint.2 ∨ after = s.stop)
    (hways : s.host.tree.KeepsWays after.host.tree config.dataDirectory config.versionDirectory
      config.mapLocation)
    (hapart : ∀ f ∈ (Walker.ofDataDirectory config.versionDirectory
        config.dataDirectory).segments after.host.tree,
      after.host.tree.resolve f.path ≠ after.host.tree.resolve config.mapLocation)
    (baseline : Lsn) :
    (∃ o pagemaps, s.openScan baseline = .ok o ∧ (o.run s.host).1 = pagemaps.map .ok ∧
      ∀ request : PagemapRequest, request.Asks config baseline →
        changedPagemaps after.host.tree request = .ok pagemaps) ∧
    ∃ epoch, s.epoch? = some epoch ∧
      savedEpoch after.host.tree (some config.dataDirectory) config.mapFile? = .ok epoch := by
  have hcheck := (started_of_start hstart).1
  have hdata := dataDirectory_ne_of_start hstart
  obtain rfl := config_of_leadsTo hstart hs
  have htree : after.host.tree = s.checkpoint.2.host.tree := by
    rcases hafter with rfl | rfl
    · rfl
    · exact s.tree_stop
  rw [htree] at hways hapart ⊢
  obtain ⟨place, hspot, hdir, hput⟩ := MapFile.exists_of_save (save_of_checkpoint hlive hsaved)
  have hplace := Tree.place_ne_nil hdir
  rw [hput] at hways hapart ⊢
  -- the map that is read back is the live one
  have hload := MapFile.load_put hdir (hways.file place hspot)
  have hsame : ({ s.host.map live with valid := true } : ChangeMap) = s.host.map live := by
    rw [← hvalid]
  rw [hsame] at hload
  -- the walk finds what it found
  have hfind := Tree.find?_put (t := s.host.tree) hplace
    (.file (.ofBytes (s.host.map live).toImage)) place
  rw [if_pos rfl] at hfind
  have hresolve := Tree.resolve_of_spot (hways.file place hspot) hfind (by simp [Node.kind])
  rw [hresolve] at hapart
  have hsegments := segments_eq_of_apart (Tree.differsAt_put hdir _) hfind hdata hways hapart
  refine ⟨⟨_, ((Walker.ofDataDirectory s.tracker.config.versionDirectory
    s.tracker.config.dataDirectory).segments s.host.tree).filterMap
      ((s.host.map live).pagemap? baseline), openScan_eq hlive baseline, ?_, ?_⟩, ?_⟩
  · exact Scan.run_fst (t := s.host.tree) hvalid rfl
  · intro request hasks
    rw [changedPagemaps_of_load hload hcheck hasks, hsegments]
  · refine ⟨(s.host.map live).epoch, ?_, savedEpoch_of_load hload⟩
    rw [epoch?, liveMap?_of_live? hlive, Option.map_some]

end Started

/-- The map of a tracker that was stopped is asked by its path, with the baseline in decimal. -/
theorem queries_agree_stopped :
    ∃ s o pagemaps epoch, start ⟨⟨"/data"⟩, 8, "v1", some ⟨"/data/m"⟩⟩ exemptNone
          ⟨databaseTree, ⟨50⟩, #[]⟩ = .ok s ∧
      (s.run [.mark ⟨⟨1663, 5, 16384⟩, .main, 0⟩ ⟨100⟩]).openScan ⟨100⟩ = .ok o ∧
      (o.run (s.run [.mark ⟨⟨1663, 5, 16384⟩, .main, 0⟩ ⟨100⟩]).host).1 = pagemaps.map .ok ∧
      changedPagemaps (s.run [.mark ⟨⟨1663, 5, 16384⟩, .main, 0⟩ ⟨100⟩]).stop.host.tree
          ⟨some ⟨"/data"⟩, some "100", some ⟨"/data/m"⟩, .text, some "v1"⟩ = .ok pagemaps ∧
      (s.run [.mark ⟨⟨1663, 5, 16384⟩, .main, 0⟩ ⟨100⟩]).epoch? = some epoch ∧
      savedEpoch (s.run [.mark ⟨⟨1663, 5, 16384⟩, .main, 0⟩ ⟨100⟩]).stop.host.tree
          (some ⟨"/data"⟩) (some ⟨"/data/m"⟩) = .ok epoch := by
  obtain ⟨s, hstart, s', hs', hlive, hvalid, hspot, hfile, hsaved⟩ :
      ∃ s, start ⟨⟨"/data"⟩, 8, "v1", some ⟨"/data/m"⟩⟩ exemptNone ⟨databaseTree, ⟨50⟩, #[]⟩ = .ok s ∧
        ∃ s', s' = s.run [.mark ⟨⟨1663, 5, 16384⟩, .main, 0⟩ ⟨100⟩] ∧
          s'.live? = some 0 ∧ (s'.host.map 0).valid = true ∧
          s'.host.tree.spot ⟨"/data/m"⟩
            = .ok (.entry [⟨"m", by decide⟩, ⟨"data", by decide⟩] false) ∧
          (∃ contents, s'.host.tree.find? [⟨"m", by decide⟩, ⟨"data", by decide⟩]
            = some (.file contents)) ∧
          s'.checkpoint.1 = .ok () :=
    ⟨_, rfl, _, rfl, rfl, rfl, rfl, ⟨_, rfl⟩, rfl⟩
  have hleads : s.LeadsTo s' := hs' ▸ s.leadsTo_run _
  have hconfig := config_of_leadsTo hstart hleads
  have hsave : MapFile.save s'.host.tree ⟨"/data/m"⟩ (s'.host.map 0)
      = .ok s'.checkpoint.2.host.tree := by
    have hsave := save_of_checkpoint hlive hsaved
    rwa [hconfig] at hsave
  obtain ⟨place, hplace, hdir, hput⟩ := MapFile.exists_of_save hsave
  obtain rfl : [⟨"m", by decide⟩, ⟨"data", by decide⟩] = place := by
    have hsame := Except.ok.inj (hspot.symm.trans hplace)
    exact (Tree.Spot.entry.inj hsame).1
  have htree := s'.tree_stop.trans hput
  obtain ⟨contents, hfind⟩ := hfile
  have hways : s'.host.tree.KeepsWays s'.stop.host.tree ⟨"/data"⟩ "v1" ⟨"/data/m"⟩ := by
    rw [htree]
    refine Tree.keepsWays_of_no_link (Tree.differsAt_put hdir _) fun target hlink => ?_
    cases hfind.symm.trans hlink
  have hresolve : s'.stop.host.tree.resolve ⟨"/data/m"⟩
      = .ok (.inTree [⟨"m", by decide⟩, ⟨"data", by decide⟩]) := by
    have hspot' := hways.file _ hplace
    rw [htree] at hspot' ⊢
    have hput := Tree.find?_put (t := s'.host.tree) (Tree.place_ne_nil hdir)
      (.file (.ofBytes (s'.host.map 0).toImage)) [⟨"m", by decide⟩, ⟨"data", by decide⟩]
    rw [if_pos rfl] at hput
    exact Tree.resolve_of_spot hspot' hput (by simp [Node.kind])
  obtain ⟨⟨o, pagemaps, hopen, hrun, hquery⟩, epoch, hepoch, hsavedEpoch⟩ :=
    queries_agree hstart hleads hlive hvalid hsaved (.inr rfl) hways (fun f hf => by
      have hname : Layout.FileName.read? "m" = none := by decide +kernel
      exact hresolve ▸ resolve_path_ne_of_name (by decide) hname hf) ⟨100⟩
  subst hs'
  exact ⟨s, o, pagemaps, epoch, hstart, hopen, hrun,
    hquery _ ⟨rfl, rfl, rfl, "100", rfl, .inr (.inl (by decide +kernel))⟩, hepoch, hsavedEpoch⟩

/-- A data directory in which nothing is, except for the directory of the links to tablespaces. -/
def bareTree : Tree where
  entries :=
    [([.ofText "d"], .directory true),
      ([.ofText "pg_tblspc", .ofText "d"], .directory true)]
  working := .root
  nodup := by decide

/-- A file that takes the place of the link to the tablespace leaves the walk nothing to find. -/
lemma segments_put_linkedTree (contents : Contents) :
    (Walker.ofDataDirectory "v1" ⟨"d"⟩).segments
      (linkedTree.put [⟨"16500", by decide⟩, ⟨"pg_tblspc", by decide⟩, ⟨"d", by decide⟩]
        (.file contents)) = [] := by
  obtain ⟨t, hglobal, hbase, hresolve, hfind, hchildren, ht⟩ :
      ∃ t : Tree, t.isListable ((Path.mk "d").join "global") = false ∧
        t.isListable ((Path.mk "d").join "base") = false ∧
        t.resolve ((Path.mk "d").join "pg_tblspc")
          = .ok (.inTree [⟨"pg_tblspc", by decide⟩, ⟨"d", by decide⟩]) ∧
        t.find? [⟨"pg_tblspc", by decide⟩, ⟨"d", by decide⟩] = some (.directory true) ∧
        t.children [⟨"pg_tblspc", by decide⟩, ⟨"d", by decide⟩]
          = [(⟨"16500", by decide⟩, .file contents)] ∧
        linkedTree.put [⟨"16500", by decide⟩, ⟨"pg_tblspc", by decide⟩, ⟨"d", by decide⟩]
          (.file contents) = t :=
    ⟨_, rfl, rfl, rfl, rfl, rfl, rfl⟩
  have hspaces (room : Nat) :
      Walk.listing t "v1" room ((Path.mk "d").join "pg_tblspc") .unknown = [] := by
    have hlist : t.listDirectory ((Path.mk "d").join "pg_tblspc")
        = .ok [⟨⟨"16500", by decide⟩, .file⟩] := by
      simp [Tree.listDirectory, hresolve, Tree.findAt?, hfind, Tree.childrenAt, hchildren,
        Node.kind, bind, Except.bind, pure, Except.pure]
    cases room with
    | zero => rfl
    | succ room =>
      rw [listing_of_singleton hlist]
      rfl
  rw [ht, segments_ofDataDirectory, rootNames, List.flatMap_cons, List.flatMap_cons,
    List.flatMap_singleton, listing_eq_nil hglobal, listing_eq_nil hbase]
  exact hspaces _

lemma spot_put_linkedTree (contents : Contents) :
    (linkedTree.put [⟨"16500", by decide⟩, ⟨"pg_tblspc", by decide⟩, ⟨"d", by decide⟩]
      (.file contents)).spot ⟨"d/pg_tblspc/16500"⟩ = .ok (.entry
        [⟨"16500", by decide⟩, ⟨"pg_tblspc", by decide⟩, ⟨"d", by decide⟩] false) :=
  rfl

/-- The file of the map takes the place of a link to a tablespace.  A scan of the live map has just
reported a block of the tablespace, and no request reports it. -/
theorem queries_differ_behind_link :
    ∃ s s',
      start ⟨⟨"d"⟩, 8, "v1", some ⟨"d/pg_tblspc/16500"⟩⟩ exemptNone ⟨bareTree, ⟨50⟩, #[]⟩ = .ok s ∧
      s' = s.run [.changeTree linkedTree, .mark ⟨⟨16500, 5, 16384⟩, .main, 0⟩ ⟨100⟩] ∧
      s'.live? = some 0 ∧ (s'.host.map 0).valid = true ∧ s'.checkpoint.1 = .ok () ∧
      linkedTree.entryAt? ⟨"d/pg_tblspc/16500"⟩ = .ok (.link "../../t") ∧
      (Walker.ofDataDirectory "v1" ⟨"d"⟩).segments s'.checkpoint.2.host.tree = [] ∧
      (∃ o pagemap, s'.openScan ⟨100⟩ = .ok o ∧ .ok pagemap ∈ (o.run s'.host).1) ∧
      ∀ request : PagemapRequest,
        request.Asks ⟨⟨"d"⟩, 8, "v1", some ⟨"d/pg_tblspc/16500"⟩⟩ ⟨100⟩ →
          changedPagemaps s'.checkpoint.2.host.tree request = .ok [] := by
  obtain ⟨s, hstart, hlive₀, hvalid₀, s', hs', hlive, hvalid, htree, hspot, hsaved⟩ :
      ∃ s,
        start ⟨⟨"d"⟩, 8, "v1", some ⟨"d/pg_tblspc/16500"⟩⟩ exemptNone ⟨bareTree, ⟨50⟩, #[]⟩ = .ok s ∧
        s.live? = some 0 ∧ (s.host.map 0).valid = true ∧
        ∃ s', s' = s.run [.changeTree linkedTree, .mark ⟨⟨16500, 5, 16384⟩, .main, 0⟩ ⟨100⟩] ∧
          s'.live? = some 0 ∧ (s'.host.map 0).valid = true ∧ s'.host.tree = linkedTree ∧
          s'.host.tree.spot ⟨"d/pg_tblspc/16500"⟩ = .ok (.entry
            [⟨"16500", by decide⟩, ⟨"pg_tblspc", by decide⟩, ⟨"d", by decide⟩] false) ∧
          s'.checkpoint.1 = .ok () :=
    ⟨_, rfl, rfl, rfl, _, rfl, rfl, rfl, rfl, rfl, rfl⟩
  have hleads : s.LeadsTo s' := hs' ▸ s.leadsTo_run _
  have hconfig := config_of_leadsTo hstart hleads
  have hsave : MapFile.save s'.host.tree ⟨"d/pg_tblspc/16500"⟩ (s'.host.map 0)
      = .ok s'.checkpoint.2.host.tree := by
    have hsave := save_of_checkpoint hlive hsaved
    rwa [hconfig] at hsave
  obtain ⟨place, hplace, hdir, hput⟩ := MapFile.exists_of_save hsave
  obtain rfl : [⟨"16500", by decide⟩, ⟨"pg_tblspc", by decide⟩, ⟨"d", by decide⟩] = place := by
    have hsame := Except.ok.inj (hspot.symm.trans hplace)
    exact (Tree.Spot.entry.inj hsame).1
  rw [htree] at hdir hput
  -- the live map has the mark, and the walk before the checkpoint finds the file
  have hread : (⟨100⟩ : Lsn) ≤ (s'.host.map 0).read ⟨⟨16500, 5, 16384⟩, .main, 0⟩ := by
    have hcalm : ∀ c ∈ [Action.changeTree linkedTree] ++
        Action.mark ⟨⟨16500, 5, 16384⟩, .main, 0⟩ ⟨100⟩ :: [], c.Calm := by
      simp [Action.Calm]
    rw [hs']
    exact le_read_run (coherent_of_leadsTo hstart (.refl s)) hlive₀ hvalid₀ hcalm ⟨rfl, rfl⟩
  have hfile : linkedTree.entryAt? ((((((Path.mk "d").join "pg_tblspc").join
      (Layout.oidText 16500)).join "v1").join (Layout.oidText 5)).join
        (Layout.FileName.mk 16384 .main 0).render) = .ok (.file (.zeros 0)) := by
    decide +kernel
  obtain ⟨f, hf, hrelation, hfork, hindex, -⟩ := mem_segments_of_housed (by decide)
    (OrdinaryVersion.mk (by decide) (by decide) (by decide)) housed_linkedTree hfile
  have hblock : f.block 0 = ⟨⟨16500, 5, 16384⟩, .main, 0⟩ :=
    Segment.block_of_number (b := ⟨⟨16500, 5, 16384⟩, .main, 0⟩) hrelation hfork
      (congrArg UInt32.toNat hindex)
  have hchanged : 0 ∈ (s'.host.map 0).changedOffsets ⟨100⟩ f := by
    rw [ChangeMap.mem_changedOffsets, hblock]
    refine ⟨Nat.zero_le _, fun hnever => ?_, hread⟩
    rw [hnever] at hread
    exact absurd hread (by decide)
  obtain ⟨pagemap, hpagemap, -⟩ := ChangeMap.exists_pagemap hchanged
  have hopen := openScan_eq hlive ⟨100⟩
  have hscan := mem_run_openScan hvalid hlive hopen (by rw [hconfig, htree]; exact hf) hpagemap
  have hsegments := segments_put_linkedTree (.ofBytes (s'.host.map 0).toImage)
  -- the path of the map leads to the file that took the link's place
  have hload : MapFile.load s'.checkpoint.2.host.tree
      (Config.mapLocation ⟨⟨"d"⟩, 8, "v1", some ⟨"d/pg_tblspc/16500"⟩⟩)
        = .ok (some { s'.host.map 0 with valid := true }) := by
    rw [hput]
    exact MapFile.load_put hdir (spot_put_linkedTree _)
  rw [← hput] at hsegments
  refine ⟨s, s', hstart, hs', hlive, hvalid, hsaved, by decide +kernel, hsegments,
    ⟨_, pagemap, hopen, hscan⟩, fun request hasks => ?_⟩
  rw [changedPagemaps_of_load hload (started_of_start hstart).1 hasks, hsegments]
  rfl

end Tracking

end ChangeTracking
