import ChangeTracking.Proofs.Lookup
import ChangeTracking.Proofs.Names
import ChangeTracking.Walk

/-!
# What walks come to

A walk over a data directory comes to every segment file in one of the directories where relations
are stored (`Housed`), as long as these can be listed and the file can be looked up.  The way there
leads down one level for each component of the path, which is always less than the room that there
is (`mem_segments_of_housed`).
-/

namespace ChangeTracking

open Layout Walk

variable {t : Tree} {version : String}

/-- The name of a version's directory that is not taken for anything else. -/
structure OrdinaryVersion (version : String) : Prop where
  valid : ValidName version
  not_digits : allDigits version.toList = false
  not_temporary : isTemporaryName version = false

/-- `dir` is the directory of a relation, and a walk over the data directory can get there.  The
directories that lead from the data directory to it are there and can be listed. -/
inductive Housed (t : Tree) (data : Path) (version : String) : Relation → Path → Prop
  | shared {number : Oid} (hroot : t.isListable (data.join "global") = true) :
      Housed t data version ⟨sharedTablespace, noOid, number⟩ (data.join "global")
  | inDefault {database number : Oid} (hdatabase : database ≠ noOid)
      (hroot : t.isListable (data.join "base") = true)
      (hdir : t.entryAt? ((data.join "base").join (oidText database)) = .ok (.directory true)) :
      Housed t data version ⟨defaultTablespace, database, number⟩
        ((data.join "base").join (oidText database))
  | inTablespace {tablespace database number : Oid} {target : String}
      (hother : tablespace ≠ noOid ∧ tablespace ≠ defaultTablespace ∧ tablespace ≠ sharedTablespace)
      (hdatabase : database ≠ noOid)
      (hroot : t.isListable (data.join "pg_tblspc") = true)
      (hlink : t.entryAt? ((data.join "pg_tblspc").join (oidText tablespace)) = .ok (.link target))
      (hspace : t.isListable ((data.join "pg_tblspc").join (oidText tablespace)) = true)
      (hversion : t.entryAt? (((data.join "pg_tblspc").join (oidText tablespace)).join version)
        = .ok (.directory true))
      (hdir : t.entryAt? ((((data.join "pg_tblspc").join (oidText tablespace)).join version).join
        (oidText database)) = .ok (.directory true)) :
      Housed t data version ⟨tablespace, database, number⟩
        ((((data.join "pg_tblspc").join (oidText tablespace)).join version).join (oidText database))

/-! ## One level -/

/-- The segment file that a walk makes of a file in a directory. -/
def segmentOf (version : String) (dir : Path) (context : Context) (n : FileName) (size : Nat) :
    Segment :=
  { relation := ⟨context.fileTablespace, context.database, n.number⟩
    fork := n.fork
    index := n.segment
    path := dir.join n.render
    relativePath :=
      segmentPath ⟨context.fileTablespace, context.database, n.number⟩ n.fork n.segment version
    size := size }

lemma kind_of_mem_listed {dir : Path} (hdir : dir.text ≠ "") {name : String} (hname : ValidName name)
    {node : Node} (hnode : t.entryAt? (dir.join name) = .ok node) {kind : Kind}
    (h : ⟨⟨name, hname⟩, kind⟩ ∈ listed t dir) : kind = node.kind := by
  unfold listed at h
  split at h
  · next entries hlist => exact Tree.kind_of_mem_listDirectory hdir hname hnode hlist h
  · exact absurd h List.not_mem_nil

section Level

variable {dir : Path} {context : Context} {room : Nat} (hdir : dir.text ≠ "")
  (hlist : t.isListable dir = true)

include hdir hlist

/-- What can be looked up in a directory that can be listed is one of its entries. -/
lemma mem_listed_of_entryAt? {name : String} {node : Node} (hname : ValidName name)
    (hnode : t.entryAt? (dir.join name) = .ok node) :
    ⟨⟨name, hname⟩, node.kind⟩ ∈ listed t dir := by
  obtain ⟨entries, hentries⟩ := Tree.listed_of_isListable hlist
  rw [listed, hentries]
  exact Tree.mem_listDirectory hdir hname hnode hentries

/-- A segment file in a directory is listed there. -/
lemma segmentOf_mem_listing {n : FileName} {contents : Contents}
    (hsegments : context.hasSegments = true)
    (hfile : t.entryAt? (dir.join n.render) = .ok (.file contents)) :
    segmentOf version dir context n contents.size ∈ listing t version (room + 1) dir context := by
  have hmem := mem_listed_of_entryAt? hdir hlist (validName_render n) hfile
  rw [listing]
  refine List.mem_flatMap.mpr ⟨_, hmem, ?_⟩
  simp [segmentsOf, lookAt, isTemporaryName_render, Node.kind, hsegments, read?_render, hfile,
    segmentOf, Tree.nodeSize]

/-- What is listed further down is listed in the directory. -/
lemma mem_listing_of_enter {name : String} {node : Node} {inner : Context} {s : Segment}
    (hname : ValidName name) (htemporary : isTemporaryName name = false)
    (hnode : t.entryAt? (dir.join name) = .ok node) (hkind : node.kind ≠ .file)
    (henter : context.enter? version name node.kind = some inner)
    (hs : s ∈ listing t version room (dir.join name) inner) :
    s ∈ listing t version (room + 1) dir context := by
  have hmem := mem_listed_of_entryAt? hdir hlist hname hnode
  rw [listing]
  refine List.mem_flatMap.mpr ⟨_, hmem, ?_⟩
  simpa [segmentsOf, lookAt, htemporary, hkind, henter] using hs

end Level

/-- A directory that cannot be listed is passed over. -/
lemma listing_eq_nil {dir : Path} {context : Context} (h : t.isListable dir = false) (room : Nat) :
    listing t version room dir context = [] := by
  cases room with
  | zero => rfl
  | succ room =>
    unfold Tree.isListable at h
    rw [listing, listed]
    cases hlist : t.listDirectory dir with
    | error e => rfl
    | ok entries => simp [hlist, Except.isOk, Except.toBool] at h

lemma listing_of_singleton {dir : Path} {context : Context} {e : Tree.Entry}
    (h : t.listDirectory dir = .ok [e]) (room : Nat) :
    listing t version (room + 1) dir context
      = segmentsOf t version (listing t version room) dir context e := by
  rw [listing, listed, h, List.flatMap_singleton]

/-! ## All that a walk yields -/

/-- What a walk still yields when it is asked for the next segment file until there is none. -/
def Walker.collect (t : Tree) (w : Walker) : List Segment :=
  match _hnext : w.next t with
  | none => []
  | some (segment, w') => segment :: w'.collect t
  termination_by (w.segments t).length
  decreasing_by simp [Walker.next_eq_some _hnext]

theorem Walker.collect_eq_segments (t : Tree) (w : Walker) : w.collect t = w.segments t := by
  fun_induction w.collect t with
  | case1 w hnext => rw [Walker.next_eq_none_iff.mp hnext]
  | case2 w segment w' hnext ih => rw [Walker.next_eq_some hnext, ih]

/-! ## Names that are no numbers -/

lemma validName_of_readOid? {name : String} {oid : Oid} (h : readOid? name.toList = some oid) :
    ValidName name := by
  have hdigits := allDigits_of_readOid? h
  simp only [allDigits, Bool.and_eq_true, Bool.not_eq_true', List.isEmpty_eq_false_iff,
    List.all_eq_true, decide_eq_true_eq] at hdigits
  obtain ⟨hne, hdigits⟩ := hdigits
  obtain ⟨c, rest, hname⟩ := List.exists_cons_of_ne_nil hne
  refine validName_of_digit hname (Text.isDigit_iff.mpr (hdigits c (by simp [hname]))) fun hslash => ?_
  exact absurd (hdigits '/' hslash) (by decide)

lemma OrdinaryVersion.readOid? (h : OrdinaryVersion version) :
    readOid? version.toList = none := by
  cases hread : Layout.readOid? version.toList with
  | none => rfl
  | some oid =>
    have hdigits := allDigits_of_readOid? hread
    rw [h.not_digits] at hdigits
    exact absurd hdigits (by decide)

/-! ## The way to a segment file -/

lemma enter?_database (tablespace database : Oid) :
    (Context.mk tablespace noOid).enter? version (oidText database) .directory
      = some ⟨tablespace, database⟩ := by
  simp [Context.enter?, readOid?_oidText]

lemma enter?_tablespace (tablespace : Oid) :
    Context.unknown.enter? version (oidText tablespace) .link = some ⟨tablespace, noOid⟩ := by
  simp [Context.enter?, readOid?_oidText]

lemma enter?_version {tablespace : Oid} (h : tablespace ≠ noOid)
    (hversion : OrdinaryVersion version) :
    (Context.mk tablespace noOid).enter? version version .directory = some ⟨tablespace, noOid⟩ := by
  simp [Context.enter?, hversion.readOid?, h]

lemma exists_roomFor (p : Path) (levels : Nat) (h : p.text.utf8ByteSize + levels < Tree.pathLimit) :
    ∃ room, roomFor p = room + levels + 1 :=
  ⟨Tree.pathLimit - p.text.utf8ByteSize - levels - 1, by unfold roomFor; omega⟩

lemma mem_segments_of_root {data : Path} {s : Segment} (root : Root)
    (hroot : root ∈ (Walker.ofDataDirectory version data).roots)
    (hlist : t.isListable root.path = true)
    (hs : s ∈ listing t version (roomFor root.path) root.path root.context) :
    s ∈ (Walker.ofDataDirectory version data).segments t := by
  refine List.mem_append_right _ (List.mem_flatMap.mpr ⟨root, hroot, ?_⟩)
  rw [Root.listing, if_pos (Tree.leadsSomewhere_of_isListable hlist)]
  exact hs

section Housed

variable {data : Path} {fork : Fork} {segment : UInt32} {contents : Contents}

/-- The segment files of a database are listed in the directory that holds the database's own. -/
lemma segmentOf_mem_listing_of_database (version : String) {p : Path} (tablespace : Oid)
    {database number : Oid} (hp : p.text ≠ "") (hlist : t.isListable p = true)
    (hdatabase : database ≠ noOid)
    (hdir : t.entryAt? (p.join (oidText database)) = .ok (.directory true))
    (hfile : t.entryAt? ((p.join (oidText database)).join (FileName.mk number fork segment).render)
      = .ok (.file contents)) (room : Nat) :
    segmentOf version (p.join (oidText database)) ⟨tablespace, database⟩ ⟨number, fork, segment⟩
      contents.size ∈ listing t version (room + 2) p ⟨tablespace, noOid⟩ := by
  have hname := validName_oidText database
  have hdb := Path.text_join_ne hp hname.isAbsolute
  have hinside : segmentOf version (p.join (oidText database)) ⟨tablespace, database⟩
      ⟨number, fork, segment⟩ contents.size
        ∈ listing t version (room + 1) (p.join (oidText database)) ⟨tablespace, database⟩ :=
    segmentOf_mem_listing hdb (Tree.isListable_join hp hname hdir)
      (by simp [Context.hasSegments, hdatabase]) hfile
  exact mem_listing_of_enter hp hlist hname (isTemporaryName_oidText database) hdir
    (by simp [Node.kind]) (enter?_database tablespace database) hinside

/-- All segment files of a relation that is housed in a directory are listed below the root that
leads there. -/
lemma exists_root_of_housed {dir : Path} {r : Relation} (hdata : data.text ≠ "")
    (hversion : OrdinaryVersion version) (hhoused : Housed t data version r dir)
    (hfile : t.entryAt? (dir.join (FileName.mk r.number fork segment).render)
      = .ok (.file contents)) :
    ∃ context : Context, context.fileTablespace = r.tablespace ∧ context.database = r.database ∧
      segmentOf version dir context ⟨r.number, fork, segment⟩ contents.size
        ∈ (Walker.ofDataDirectory version data).segments t := by
  have hname := validName_render ⟨r.number, fork, segment⟩
  have hlimit := Tree.size_lt_of_entryAt? hfile
  cases hhoused with
  | shared hroot =>
    have hglobal := Path.text_join_ne hdata (by rfl : (Path.mk "global").isAbsolute = false)
    have hfileSize := Path.size_join_le hglobal hname.isAbsolute
    obtain ⟨room, hroom⟩ := exists_roomFor (data.join "global") 0 (by omega)
    refine ⟨⟨sharedTablespace, noOid⟩, rfl, rfl,
      mem_segments_of_root ⟨data.join "global", ⟨sharedTablespace, noOid⟩⟩
        (by simp [Walker.ofDataDirectory, Walker.ofRoots]) hroot ?_⟩
    rw [hroom]
    exact segmentOf_mem_listing hglobal hroot rfl hfile
  | @inDefault database number hdatabase hroot hdir =>
    have hdbname := validName_oidText database
    have hbase := Path.text_join_ne hdata (by rfl : (Path.mk "base").isAbsolute = false)
    have hdb := Path.text_join_ne hbase hdbname.isAbsolute
    have hdbSize := Path.size_join_le hbase hdbname.isAbsolute
    have hfileSize := Path.size_join_le hdb hname.isAbsolute
    obtain ⟨room, hroom⟩ := exists_roomFor (data.join "base") 1 (by
      have := hdbname.size_pos
      omega)
    refine ⟨⟨noOid, database⟩, rfl, rfl, mem_segments_of_root ⟨data.join "base", .unknown⟩
      (by simp [Walker.ofDataDirectory, Walker.ofRoots]) hroot ?_⟩
    rw [hroom]
    exact segmentOf_mem_listing_of_database version noOid hbase hroot hdatabase hdir hfile room
  | @inTablespace tablespace database number _ hother hdatabase hroot hlink hspace hinner hdir =>
    have hspcname := validName_oidText tablespace
    have hdbname := validName_oidText database
    have htblspc := Path.text_join_ne hdata (by rfl : (Path.mk "pg_tblspc").isAbsolute = false)
    have hspc := Path.text_join_ne htblspc hspcname.isAbsolute
    have hver := Path.text_join_ne hspc hversion.valid.isAbsolute
    have hdb := Path.text_join_ne hver hdbname.isAbsolute
    have hspcSize := Path.size_join_le htblspc hspcname.isAbsolute
    have hverSize := Path.size_join_le hspc hversion.valid.isAbsolute
    have hdbSize := Path.size_join_le hver hdbname.isAbsolute
    have hfileSize := Path.size_join_le hdb hname.isAbsolute
    obtain ⟨room, hroom⟩ := exists_roomFor (data.join "pg_tblspc") 3 (by
      have := hspcname.size_pos
      have := hversion.valid.size_pos
      have := hdbname.size_pos
      omega)
    -- from the database's directory up to the root, one level after the other
    have hinversion := segmentOf_mem_listing_of_database version tablespace hver
      (Tree.isListable_join hspc hversion.valid hinner) hdatabase hdir hfile room
    have hinspace := mem_listing_of_enter hspc hspace hversion.valid hversion.not_temporary hinner
      (by simp [Node.kind]) (enter?_version hother.1 hversion) hinversion
    have hinroot := mem_listing_of_enter htblspc hroot hspcname (isTemporaryName_oidText tablespace)
      hlink (by simp [Node.kind]) (enter?_tablespace tablespace) hinspace
    refine ⟨⟨tablespace, database⟩, by simp [Context.fileTablespace, hother.1], rfl,
      mem_segments_of_root ⟨data.join "pg_tblspc", .unknown⟩
        (by simp [Walker.ofDataDirectory, Walker.ofRoots]) hroot ?_⟩
    rw [hroom]
    exact hinroot

/-- What a walk says about the file of a relation that is housed in a directory. -/
def housedSegment (version : String) (r : Relation) (dir : Path) (fork : Fork) (index : UInt32)
    (size : Nat) : Segment :=
  { relation := r
    fork := fork
    index := index
    path := dir.join (FileName.mk r.number fork index).render
    relativePath := segmentPath r fork index version
    size := size }

/-- A walk over a data directory comes to all segment files of the relations housed there. -/
lemma housedSegment_mem_segments {dir : Path} {r : Relation} (hdata : data.text ≠ "")
    (hversion : OrdinaryVersion version) (hhoused : Housed t data version r dir)
    (hfile : t.entryAt? (dir.join (FileName.mk r.number fork segment).render)
      = .ok (.file contents)) :
    housedSegment version r dir fork segment contents.size
      ∈ (Walker.ofDataDirectory version data).segments t := by
  obtain ⟨context, htablespace, hdatabase, hmem⟩ :=
    exists_root_of_housed hdata hversion hhoused hfile
  have hrelation : (⟨context.fileTablespace, context.database, r.number⟩ : Relation) = r := by
    rw [htablespace, hdatabase]
  rw [segmentOf, hrelation] at hmem
  exact hmem

theorem mem_segments_of_housed {dir : Path} {r : Relation} (hdata : data.text ≠ "")
    (hversion : OrdinaryVersion version) (hhoused : Housed t data version r dir)
    (hfile : t.entryAt? (dir.join (FileName.mk r.number fork segment).render)
      = .ok (.file contents)) :
    ∃ s ∈ (Walker.ofDataDirectory version data).segments t,
      s.relation = r ∧ s.fork = fork ∧ s.index = segment ∧ s.size = contents.size ∧
        s.relativePath = segmentPath r fork segment version :=
  ⟨_, housedSegment_mem_segments hdata hversion hhoused hfile, rfl, rfl, rfl, rfl, rfl⟩

end Housed

/-! ## Where files belong -/

section Places

variable {data dir : Path} {r : Relation} {fork : Fork} {segment : UInt32}

/-- The path of a segment file leads to its relation's directory and then to its name. -/
lemma join_segmentPath_eq (hdata : data.text ≠ "") (hversion : ValidName version) :
    data.join (segmentPath r fork segment version)
      = ((relationDirectory r version).foldl Path.join data).join
          (FileName.mk r.number fork segment).render := by
  have hnames : ∀ name ∈ relationDirectory r version ++ [(FileName.mk r.number fork segment).render],
      ValidName name := by
    intro name hname
    rcases List.mem_append.mp hname with hname | hname
    · exact validName_of_mem_relationDirectory hversion r name hname
    · rw [List.mem_singleton.mp hname]
      exact validName_render _
  have hpath : segmentPath r fork segment version = (Path.ofNames (relationDirectory r version
      ++ [(FileName.mk r.number fork segment).render])).text := rfl
  rw [hpath]
  cases hdirectory : relationDirectory r version with
  | nil =>
    rw [hdirectory] at hnames
    exact Path.join_ofNames hnames hdata
  | cons first rest =>
    rw [hdirectory] at hnames
    exact (Path.join_ofNames hnames hdata).trans (List.foldl_concat _ _ _ _)

lemma Housed.dir_eq (h : Housed t data version r dir) :
    dir = (relationDirectory r version).foldl Path.join data := by
  cases h with
  | shared => rfl
  | inDefault => rfl
  | inTablespace hother => simp [relationDirectory, hother]

/-- Where a relation is housed is where its segment files belong. -/
lemma join_segmentPath (hdata : data.text ≠ "") (hversion : OrdinaryVersion version)
    (hhoused : Housed t data version r dir) :
    data.join (segmentPath r fork segment version)
      = dir.join (FileName.mk r.number fork segment).render := by
  rw [join_segmentPath_eq hdata hversion.valid, hhoused.dir_eq]

end Places

end ChangeTracking
