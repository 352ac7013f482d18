import ChangeTracking.Proofs.BulkMarks
import ChangeTracking.Proofs.Reports
import ChangeTracking.Proofs.Visits

/-!
# Copied directories are reported

Two walks have to agree about a directory that was copied into place: the one that marks it, which
starts there and takes tablespace and database from the names in its path, and the one of a scan,
which comes by way of the data directory and learns them as it goes down (`CopyTarget`).

What a scan's walk finds below a directory it finds by entering that directory
(`exists_enter_of_isBelow`), in a context that follows from the names on the way.  From there on the
two walks are in the same place.  They have different room left, which makes no difference, as a
path that is too long cannot be listed anyway (`mem_listing_roomFor`); and in a database of the
default tablespace the marking walk knows the tablespace and the other does not, so it may find
more, but not less (`listing_subset_default`).  Hence all that a scan finds below the directory has
been marked (`copied_reports`).
-/

namespace ChangeTracking

open Layout Walk

/-! ## What a walk finds below a directory -/

section Listing

variable {t : Tree} {version : String} {dir : Path} {context : Context} {room : Nat} {f : Segment}

/-- What a walk finds below an entry of a directory it finds by entering it. -/
lemma exists_enter_of_isBelow {name : String} (hdir : dir.text ≠ "") (hname : ValidName name)
    (h : f ∈ listing t version room dir context) (hbelow : f.path.IsBelow (dir.join name)) :
    ∃ room' kind inner, ⟨⟨name, hname⟩, kind⟩ ∈ listed t dir ∧
      context.enter? version name kind = some inner ∧
        f ∈ listing t version room' (dir.join name) inner := by
  cases room with
  | zero => exact absurd h List.not_mem_nil
  | succ room =>
    obtain ⟨⟨name', kind⟩, he, hfile | ⟨inner, henter, hinside⟩⟩ := mem_listing_succ.mp h
    · obtain ⟨further, hfurther, hcomponents⟩ := hbelow
      rw [path_of_lookAt hfile, name'.property.components_join hdir, hname.components_join hdir,
        List.append_assoc] at hcomponents
      simp at hcomponents
      exact absurd hcomponents.2 hfurther
    · have hinner :=
        isBelow_of_mem_listing (Path.text_join_ne hdir name'.property.isAbsolute) hinside
      obtain rfl : name' = ⟨name, hname⟩ :=
        Subtype.ext (hinner.name_eq hdir name'.property hname hbelow)
      exact ⟨room, kind, inner, he, enter?_of_lookAt henter, hinside⟩

/-- So it does in the context that follows from what the entry is. -/
lemma exists_listing_of_entryAt? {name : String} {node : Node} {inner : Context}
    (hdir : dir.text ≠ "") (hname : ValidName name)
    (hnode : t.entryAt? (dir.join name) = .ok node)
    (henter : context.enter? version name node.kind = some inner)
    (h : f ∈ listing t version room dir context) (hbelow : f.path.IsBelow (dir.join name)) :
    ∃ room', f ∈ listing t version room' (dir.join name) inner := by
  obtain ⟨room', kind, inner', hentry, henter', hinside⟩ :=
    exists_enter_of_isBelow hdir hname h hbelow
  obtain rfl := kind_of_mem_listed hdir hname hnode hentry
  obtain rfl := Option.some.inj (henter.symm.trans henter')
  exact ⟨room', hinside⟩

/-- In a tablespace it need not be known that the entry is a directory. -/
lemma exists_listing_of_tablespace {name : String} {inner : Context} (hdir : dir.text ≠ "")
    (hname : ValidName name) (htablespace : context.tablespace ≠ noOid)
    (henter : context.enter? version name .directory = some inner)
    (h : f ∈ listing t version room dir context) (hbelow : f.path.IsBelow (dir.join name)) :
    ∃ room', f ∈ listing t version room' (dir.join name) inner := by
  obtain ⟨room', kind, inner', -, henter', hinside⟩ := exists_enter_of_isBelow hdir hname h hbelow
  obtain rfl := kind_of_enter? htablespace henter'
  obtain rfl := Option.some.inj (henter.symm.trans henter')
  exact ⟨room', hinside⟩

/-- In a database's directory it makes no difference for the files whether the default tablespace is
known.  A walk that knows it finds more directories. -/
lemma listing_subset_default {database : Oid} (hdatabase : database ≠ noOid)
    (h : f ∈ listing t version room dir ⟨noOid, database⟩) :
    f ∈ listing t version room dir ⟨defaultTablespace, database⟩ := by
  cases room with
  | zero => exact absurd h List.not_mem_nil
  | succ room =>
    obtain ⟨e, he, hfile | ⟨inner, henter, -⟩⟩ := mem_listing_succ.mp h
    · refine mem_listing_succ.mpr ⟨e, he, .inl ?_⟩
      have hother : defaultTablespace ≠ noOid := by decide
      rw [← hfile]
      simp only [lookAt, kind_of_lookAt hfile, Context.hasSegments, Context.fileTablespace, hother,
        if_true, if_false, hdatabase, ne_eq, not_false_eq_true, decide_true, Bool.true_or]
    · have hnone : Context.enter? ⟨noOid, database⟩ version e.name.val e.kind = none := by
        unfold Context.enter?
        split
        · rfl
        · split <;> simp [hdatabase]
        · simp [Context.unknown, hdatabase]
      rw [enter?_of_lookAt henter] at hnone
      cases hnone

end Listing

/-! ## Directories that are copied -/

/-- The names that lead from the data directory to what holds the relations of a database, or those
that all databases share, and what is known about it from the names.  That a walk over the data
directory knows the same takes that a database in `base` is a directory, not a link, and that a
tablespace is a link. -/
inductive CopyTarget (t : Tree) (data : Path) (version : String) : List String → Context → Prop
  | shared : CopyTarget t data version ["global"] ⟨sharedTablespace, noOid⟩
  | inDefault {name : String} {database : Oid} {readable : Bool}
      (hname : readOid? name.toList = some database) (hdatabase : database ≠ noOid)
      (hdir : t.entryAt? ((data.join "base").join name) = .ok (.directory readable)) :
      CopyTarget t data version ["base", name] ⟨defaultTablespace, database⟩
  | inTablespace {space name : String} {tablespace database : Oid} {target : String}
      (hspace : readOid? space.toList = some tablespace) (htablespace : tablespace ≠ noOid)
      (hname : readOid? name.toList = some database) (hdatabase : database ≠ noOid)
      (hlink : t.entryAt? ((data.join "pg_tblspc").join space) = .ok (.link target)) :
      CopyTarget t data version ["pg_tblspc", space, version, name] ⟨tablespace, database⟩

section Targets

variable {t : Tree} {data : Path} {version : String} {names : List String} {context : Context}
  {f : Segment}

lemma CopyTarget.exists_cons (h : CopyTarget t data version names context)
    (hversion : OrdinaryVersion version) :
    ∃ first rest, names = first :: rest ∧ ∀ name ∈ first :: rest, ValidName name := by
  have hglobal : ValidName "global" := by decide
  have hbase : ValidName "base" := by decide
  have htblspc : ValidName "pg_tblspc" := by decide
  cases h with
  | shared => exact ⟨_, _, rfl, by simp [hglobal]⟩
  | inDefault hname => exact ⟨_, _, rfl, by simp [hbase, validName_of_readOid? hname]⟩
  | inTablespace hspace _ hname =>
    exact ⟨_, _, rfl, by simp [htblspc, validName_of_readOid? hspace, hversion.valid,
      validName_of_readOid? hname]⟩

/-- The names in the path tell just what is known. -/
lemma CopyTarget.databaseAt? (h : CopyTarget t data version names context)
    (hversion : OrdinaryVersion version) :
    Layout.databaseAt? (.ofNames names) version = some (context.tablespace, context.database) := by
  obtain ⟨first, rest, rfl, hnames⟩ := h.exists_cons hversion
  rw [Layout.databaseAt?, Path.names_ofNames hnames]
  cases h with
  | shared => rfl
  | inDefault hname => simp [hname]
  | inTablespace hspace _ hname => simp [hspace, hname]

lemma mem_listing_of_root_isBelow (hdata : data.text ≠ "")
    (hf : f ∈ (Walker.ofDataDirectory version data).segments t) {name : String}
    (hname : ValidName name) (hbelow : f.path.IsBelow (data.join name)) :
    f ∈ listing t version (roomFor (data.join name)) (data.join name) (rootContext name) := by
  obtain ⟨root, hmem, hfound⟩ := exists_root_of_mem_segments hf
  have hroot := validName_of_mem_rootNames root hmem
  have hroot' := isBelow_of_mem_listing (Path.text_join_ne hdata hroot.isAbsolute) hfound
  obtain rfl : root = name := hroot'.name_eq hdata hroot hname hbelow
  exact hfound

/-- The walk of a scan finds below a directory that is copied what the walk that marks it finds. -/
theorem mem_listing_of_copyTarget (hdata : data.text ≠ "") (hversion : OrdinaryVersion version)
    (htarget : CopyTarget t data version names context)
    (hf : f ∈ (Walker.ofDataDirectory version data).segments t)
    (hbelow : f.path.IsBelow (data.join (Path.ofNames names).text)) :
    f ∈ (Root.mk (data.join (Path.ofNames names).text) context).listing t version := by
  have htext : (data.join (Path.ofNames names).text).text ≠ "" := by
    obtain ⟨first, rest, rfl, hnames⟩ := htarget.exists_cons hversion
    exact Path.text_join_ne hdata (Path.isAbsolute_ofNames hnames)
  suffices hlisting : ∃ room, f ∈ listing t version room (data.join (Path.ofNames names).text)
      context by
    obtain ⟨room, hroom⟩ := hlisting
    rw [Root.listing, if_pos (Tree.leadsSomewhere_of_isListable (isListable_of_mem_listing hroom))]
    exact mem_listing_roomFor htext hroom
  obtain ⟨first, rest, hcons, hnames⟩ := htarget.exists_cons hversion
  have hpath : data.join (Path.ofNames names).text = names.foldl Path.join data := by
    rw [hcons]
    exact Path.join_ofNames hnames hdata
  rw [hpath] at hbelow ⊢
  cases htarget with
  | shared =>
    have hglobal : ValidName "global" := by decide
    exact ⟨_, mem_listing_of_root_isBelow hdata hf hglobal hbelow⟩
  | @inDefault name database readable hname hdatabase hdir =>
    have hbase : ValidName "base" := by decide
    have hbaseText := Path.text_join_ne hdata hbase.isAbsolute
    have hvalid := validName_of_readOid? hname
    have hroot := mem_listing_of_root_isBelow hdata hf hbase (hbelow.of_join hbaseText hvalid)
    have hinner : Context.enter? .unknown version name .directory = some ⟨noOid, database⟩ := by
      simp [Context.enter?, hname, Context.unknown]
    obtain ⟨room, hinside⟩ := exists_listing_of_entryAt? hbaseText hvalid hdir hinner hroot hbelow
    exact ⟨room, listing_subset_default hdatabase hinside⟩
  | @inTablespace space name tablespace database target hspace htablespace hname hdatabase hlink =>
    have htblspc : ValidName "pg_tblspc" := by decide
    have hspacename := validName_of_readOid? hspace
    have hdbname := validName_of_readOid? hname
    have hroottext := Path.text_join_ne hdata htblspc.isAbsolute
    have hspacetext := Path.text_join_ne hroottext hspacename.isAbsolute
    have hversiontext := Path.text_join_ne hspacetext hversion.valid.isAbsolute
    have hinversion := Path.IsBelow.of_join hversiontext hdbname hbelow
    have hinspace := hinversion.of_join hspacetext hversion.valid
    -- from the root down to the database's directory, one level after the other
    have hroot :=
      mem_listing_of_root_isBelow hdata hf htblspc (hinspace.of_join hroottext hspacename)
    have hspaceinner : Context.enter? .unknown version space .link = some ⟨tablespace, noOid⟩ := by
      simp [Context.enter?, hspace]
    obtain ⟨_, hinside⟩ :=
      exists_listing_of_entryAt? hroottext hspacename hlink hspaceinner hroot hinspace
    obtain ⟨_, hinside⟩ := exists_listing_of_tablespace hspacetext hversion.valid htablespace
      (enter?_version htablespace hversion) hinside hinversion
    have hinner : Context.enter? ⟨tablespace, noOid⟩ version name .directory
        = some ⟨tablespace, database⟩ := by
      simp [Context.enter?, hname]
    exact exists_listing_of_tablespace hversiontext hdbname htablespace hinner hinside hbelow

end Targets

namespace Tracking

variable {s : Tracking} {live : MapId}

lemma exists_pagemap_openScan {o : OpenScan} (hvalid : (s.host.map live).valid = true)
    (hlive : s.live? = some live) {baseline : Lsn} (hopen : s.openScan baseline = .ok o)
    {f : Segment}
    (hf : f ∈ (Walker.ofDataDirectory s.tracker.config.versionDirectory
      s.tracker.config.dataDirectory).segments s.host.tree)
    {offset : Nat} (hoffset : offset ∈ (s.host.map live).changedOffsets baseline f) :
    ∃ pagemap, .ok pagemap ∈ (o.run s.host).1 ∧ pagemap.path = f.relativePath ∧
      pagemap.blocks.contains offset = true := by
  obtain ⟨pagemap, hpagemap, hpath, hcontains⟩ := ChangeMap.exists_pagemap hoffset
  exact ⟨pagemap, mem_run_openScan hvalid hlive hopen hf hpagemap, hpath, hcontains⟩

/-- What a copy's path means, if it is given from the data directory on or in full. -/
lemma copied_eq {names : List String} {context : Context} {p : Path}
    (hdata : s.tracker.config.dataDirectory.text ≠ "")
    (hversion : OrdinaryVersion s.tracker.config.versionDirectory)
    (htarget : CopyTarget s.host.tree s.tracker.config.dataDirectory
      s.tracker.config.versionDirectory names context)
    (hp : p = .ofNames names ∨ s.tracker.config.dataDirectory.isAbsolute = true ∧
      p = s.tracker.config.dataDirectory.join (Path.ofNames names).text) :
    s.copied p = (s.markDirectory
      ⟨s.tracker.config.dataDirectory.join (Path.ofNames names).text, context⟩ []).2 := by
  have hbelow : s.copiedPath? p = some (.ofNames names) := by
    obtain ⟨first, rest, rfl, hnames⟩ := htarget.exists_cons hversion
    have hrelative : (Path.mk (Path.ofNames (first :: rest)).text).isAbsolute = false :=
      Path.isAbsolute_ofNames hnames
    rcases hp with rfl | ⟨habsolute, rfl⟩
    · rw [copiedPath?, if_neg]
      exact Bool.not_eq_true _ ▸ hrelative
    · rw [copiedPath?, Path.isAbsolute_join hdata hrelative, habsolute, if_pos rfl,
        Path.relativeTo?_join_ofNames hnames hdata]
  simp only [copied, hbelow, htarget.databaseAt? hversion]

/-- A file that the marking walk and a scan's walk both find is reported after the pass. -/
lemma exists_pagemap_markPass (hs : s.Coherent) (hlive : s.live? = some live)
    (hvalid : (s.host.map live).valid = true)
    (hknown : (s.host.position.latest (s.host.map live).epoch).known = true) {root : Walk.Root}
    {f : Segment}
    (hf : f ∈ (Walker.ofDataDirectory s.tracker.config.versionDirectory
      s.tracker.config.dataDirectory).segments s.host.tree)
    (hmarked : f ∈ root.listing s.host.tree s.tracker.config.versionDirectory) {offset : Nat}
    (hoffset : offset < f.blockCount) {baseline : Lsn}
    (hbaseline : baseline ≤ s.host.position.latest (s.host.map live).epoch) :
    ∃ o, (s.markPass live root []).2.openScan baseline = .ok o ∧
      ∃ pagemap, .ok pagemap ∈ (o.run (s.markPass live root []).2.host).1 ∧
        pagemap.path = f.relativePath ∧ pagemap.blocks.contains offset = true := by
  obtain ⟨s', hs'⟩ : ∃ s', (s.markPass live root []).2 = s' := ⟨_, rfl⟩
  rw [hs']
  rw [markPass_eq, List.foldl_nil] at hs'
  have hlive' : s'.live? = some live := hs' ▸ hlive
  have hf' : f ∈ (Walker.ofDataDirectory s'.tracker.config.versionDirectory
      s'.tracker.config.dataDirectory).segments s'.host.tree := hs' ▸ hf
  have hmap : s'.host.map live = (s.host.map live).markAll (s.passMarks live root) := by
    rw [← hs', host_withHost, Host.map_updateMap_self (hs live hlive)]
  have hvalid' : (s'.host.map live).valid = true := by
    rw [hmap, ChangeMap.valid_markAll]
    exact hvalid
  have hread : s.host.position.latest (s.host.map live).epoch
      ≤ (s'.host.map live).read (f.block offset) := by
    rw [hmap]
    exact ChangeMap.le_read_markAll
      (ChangeMap.mem_segmentMarks.mpr ⟨rfl, f, hmarked, offset, hoffset, rfl⟩)
  have hchanged : offset ∈ (s'.host.map live).changedOffsets baseline f :=
    ChangeMap.mem_changedOffsets_of_lt hoffset
      (Lsn.known_iff.mp (Lsn.known_of_le hknown hread)) (hbaseline.trans hread)
  have hopen := openScan_eq hlive' baseline
  exact ⟨_, hopen, exists_pagemap_openScan hvalid' hlive' hopen hf' hchanged⟩

/-- The slots that a mark of a directory changes belong to blocks below it. -/
lemma mem_listing_of_slot_ne {root : Walk.Root} {id : MapId} {j : Nat}
    (h : ((s.markPass live root []).2.host.map id).slot j ≠ (s.host.map id).slot j) :
    id = live ∧
      ∃ f ∈ root.listing s.host.tree s.tracker.config.versionDirectory,
        ∃ offset < f.blockCount, (s.host.map live).slotOf (f.block offset) = j := by
  rw [markPass_eq, List.foldl_nil, host_withHost, Host.map_updateMap] at h
  split at h
  · next hid =>
    obtain ⟨rfl, -⟩ := hid
    refine ⟨rfl, ?_⟩
    rcases ((s.host.map id).slot_markAll (s.passMarks id root) j).1 with heq | ⟨b, hb, hslot⟩
    · exact absurd heq h
    · obtain ⟨-, f, hf, offset, hoffset, rfl⟩ := ChangeMap.mem_segmentMarks.mp hb
      exact ⟨f, hf, offset, hoffset, hslot⟩
  · exact absurd rfl h

/-- **Copied directories are reported.**  When an active tracker is told that a directory was copied
into place, by its path from the data directory on or in full, every whole block of every segment
file that a scan's walk finds below it is reported at every baseline up to the position of the
marks, which is that of the log or the start of the epoch, whichever is later.  The only slots that
change are those of the blocks that the walk from the directory itself finds. -/
theorem copied_reports {config : Config} {isExempt : Path → Bool} {host : Host} {started : Tracking}
    (hstart : start config isExempt host = .ok started) {actions : List Action}
    (hs : s = started.run actions) (hversion : OrdinaryVersion config.versionDirectory)
    (hlive : s.live? = some live) {names : List String} {context : Context}
    (htarget : CopyTarget s.host.tree config.dataDirectory config.versionDirectory names context)
    {p : Path}
    (hp : p = .ofNames names ∨ config.dataDirectory.isAbsolute = true ∧
      p = config.dataDirectory.join (Path.ofNames names).text)
    (hexempt :
      s.tracker.isExempt (config.dataDirectory.join (Path.ofNames names).text) = false)
    (hknown : (s.host.position.latest (s.host.map live).epoch).known = true) :
    (s.copied p).host.tree = s.host.tree ∧
    (∀ f ∈ (Walker.ofDataDirectory config.versionDirectory config.dataDirectory).segments
          s.host.tree,
        f.path.IsBelow (config.dataDirectory.join (Path.ofNames names).text) →
        ∀ offset < f.blockCount, ∀ baseline ≤ s.host.position.latest (s.host.map live).epoch,
          ∃ o, (s.copied p).openScan baseline = .ok o ∧
            ∃ pagemap, .ok pagemap ∈ (o.run (s.copied p).host).1 ∧
              pagemap.path = f.relativePath ∧ pagemap.blocks.contains offset = true) ∧
    (∀ id j, ((s.copied p).host.map id).slot j ≠ (s.host.map id).slot j →
      id = live ∧
        ∃ f ∈ (Walk.Root.mk (config.dataDirectory.join (Path.ofNames names).text) context).listing
            s.host.tree config.versionDirectory,
          ∃ offset < f.blockCount, (s.host.map live).slotOf (f.block offset) = j) := by
  have hleads : started.LeadsTo s := hs ▸ started.leadsTo_run actions
  have hretires : started.RetiresReplaced s := hs ▸ started.retiresReplaced_run actions
  have hcoherent := coherent_of_leadsTo hstart hleads
  have hvalid := hretires.liveValid (liveValid_of_started (started_of_start hstart).2) live hlive
  have hdata := dataDirectory_ne_of_start hstart
  obtain rfl := config_of_leadsTo hstart hleads
  set root : Walk.Root := ⟨s.tracker.config.dataDirectory.join (Path.ofNames names).text, context⟩
    with hroot
  have hcopied : s.copied p = (s.markPass live root []).2 := by
    have hexempt' : s.tracker.isExempt root.path = false := hexempt
    rw [copied_eq hdata hversion htarget hp, ← hroot]
    exact markDirectory_eq hlive hvalid (by simp) hexempt'
  refine ⟨?_, ?_, ?_⟩
  · rw [hcopied, markPass_eq]
    rfl
  · intro f hf hbelow offset hoffset baseline hbaseline
    rw [hcopied]
    exact exists_pagemap_markPass hcoherent hlive hvalid hknown hf
      (mem_listing_of_copyTarget hdata hversion htarget hf hbelow) hoffset hbaseline
  · intro id j hslot
    rw [hcopied] at hslot
    exact mem_listing_of_slot_ne hslot

/-- The database in `base` is known to be of the default tablespace by the one walk, and taken to be
by the other. -/
theorem copied_reports_database :
    ∃ s o pagemap,
      start ⟨⟨"/data"⟩, 8, "v1", some ⟨"x/m"⟩⟩ exemptNone ⟨databaseTree, ⟨50⟩, #[]⟩ = .ok s ∧
      ((s.run []).copied ⟨"/data/base/5"⟩).openScan ⟨50⟩ = .ok o ∧
      .ok pagemap ∈ (o.run ((s.run []).copied ⟨"/data/base/5"⟩).host).1 ∧
      pagemap.path = segmentPath ⟨defaultTablespace, 5, 16384⟩ .main 0 "v1" ∧
      pagemap.blocks.contains 0 = true := by
  obtain ⟨s, hstart, hlive, htree, hexempt, hknown, hfrom⟩ :
      ∃ s, start ⟨⟨"/data"⟩, 8, "v1", some ⟨"x/m"⟩⟩ exemptNone ⟨databaseTree, ⟨50⟩, #[]⟩ = .ok s ∧
        (s.run []).live? = some 0 ∧ (s.run []).host.tree = databaseTree ∧
        (s.run []).tracker.isExempt ((Path.mk "/data").join (Path.ofNames ["base", "5"]).text)
          = false ∧
        ((s.run []).host.position.latest ((s.run []).host.map 0).epoch).known = true ∧
        (s.run []).host.position.latest ((s.run []).host.map 0).epoch = ⟨50⟩ :=
    ⟨_, rfl, rfl, rfl, rfl, rfl, rfl⟩
  have hbase : databaseTree.isListable ((Path.mk "/data").join "base") = true := by decide +kernel
  have hdir : databaseTree.entryAt? (((Path.mk "/data").join "base").join (oidText 5))
      = .ok (.directory true) := by decide +kernel
  have hfile : databaseTree.entryAt? ((((Path.mk "/data").join "base").join (oidText 5)).join
      (FileName.mk 16384 .main 0).render) = .ok (.file (.zeros blockSize)) := by decide +kernel
  have htarget : CopyTarget (s.run []).host.tree ⟨"/data"⟩ "v1" ["base", "5"]
      ⟨defaultTablespace, 5⟩ := by
    rw [htree]
    exact .inDefault (by decide) (by decide) hdir
  obtain ⟨room, hroom⟩ := exists_roomFor ((Path.mk "/data").join "base") 1 (by decide +kernel)
  have hf : segmentOf "v1" (((Path.mk "/data").join "base").join (oidText 5)) ⟨noOid, 5⟩
      ⟨16384, .main, 0⟩ blockSize ∈ (Walker.ofDataDirectory "v1" ⟨"/data"⟩).segments
        (s.run []).host.tree := by
    rw [htree]
    refine mem_segments_of_root ⟨(Path.mk "/data").join "base", .unknown⟩
      (by simp [Walker.ofDataDirectory, Walker.ofRoots]) hbase ?_
    rw [hroom]
    exact segmentOf_mem_listing_of_database "v1" noOid (by decide) hbase (by decide) hdir hfile room
  obtain ⟨o, hopen, pagemap, hpagemap, hpath, hcontains⟩ :=
    (copied_reports hstart rfl ⟨by decide, by decide, by decide⟩ hlive htarget
      (.inr ⟨by decide, rfl⟩) hexempt hknown).2.1 _ hf
      ⟨[.name "16384"], by decide, by decide +kernel⟩ 0 (by decide +kernel) ⟨50⟩ (le_of_eq hfrom.symm)
  exact ⟨s, o, pagemap, hstart, hopen, hpagemap, hpath, hcontains⟩

end Tracking

end ChangeTracking
