import ChangeTracking.Proofs.RelativePaths
import ChangeTracking.Proofs.Reports

/-!
# Data directories that are laid out in order

In a data directory that is laid out in order (`LaidOut`), a walk finds the segment files of the
relations that are housed there, each once and with the numbers of its place and name, and nothing
else.  There may be anything else besides: files with other names or in other places, directories
that are not named by numbers, links that lead nowhere.

The walk comes to few directories then (`Station`): it passes over what is not part of the layout, by
one case for each directory that it is in and each way to go on from there
(`LaidOut.station_of_visits`).  Where it takes files for segment files, it has come by the names of
a relation's directory (`LaidOut.relationDirectory_of_station`), so that all paths that it reports
lead to the files (`LaidOut.join_relativePath`) and what is said about such files in general applies.

A walk looks each file up by its path.  The path to a file may be too long, where the path to its
directory is not, and the file is passed over then (`farPath`).
-/

namespace ChangeTracking

open Layout Walk
open Tracking (linkedTree housed_linkedTree)

variable {t : Tree} {data dir : Path} {version : String} {names : List String} {context : Context}
  {f : Segment}

/-! ## The layout -/

/-- The number that an entry is named by. -/
def Tree.Entry.number? (e : Tree.Entry) : Option Oid := readOid? e.name.val.toList

/-- A file that is taken for a segment file has the name that is written for it, without leading
zeros and without the number of the first segment. -/
def Tree.Entry.Canonical (e : Tree.Entry) : Prop :=
  e.kind = .file → ∀ n, FileName.read? e.name.val = some n → e.name.val = n.render

lemma Tree.Entry.number?_of_name {e : Tree.Entry} {oid : Oid} (h : e.name.val = oidText oid) :
    e.number? = some oid := by
  rw [number?, h, readOid?_oidText]

lemma Tree.Entry.canonical_of_name {e : Tree.Entry} {n : FileName} (h : e.name.val = n.render) :
    e.Canonical := by
  intro _ n' hread
  rw [h, read?_render, Option.some.injEq] at hread
  rw [h, hread]

/-- The directory of a tablespace.  Nothing in it is named by a number; in the version's directory,
the directories that are named by numbers are databases, and none is named by the version again. -/
structure SpaceLaidOut (t : Tree) (version : String) (dir : Path) : Prop where
  unnumbered : ∀ e ∈ listed t dir, e.kind = .directory → e.number? = none
  unversioned : ∀ e ∈ listed t (dir.join version), e.kind = .directory → e.name.val ≠ version
  databases : ∀ e ∈ listed t (dir.join version), e.kind = .directory →
    ∀ oid, e.number? = some oid → oid ≠ noOid ∧ e.name.val = oidText oid ∧
      ∀ e' ∈ listed t ((dir.join version).join e.name.val),
        e'.Canonical ∧ (e'.kind = .directory → e'.name.val ≠ version)

/-- A tablespace that is behind a link. -/
def IsLinked (tablespace : Oid) : Prop :=
  tablespace ≠ noOid ∧ tablespace ≠ defaultTablespace ∧ tablespace ≠ sharedTablespace

instance (tablespace : Oid) : Decidable (IsLinked tablespace) :=
  inferInstanceAs (Decidable (_ ∧ _ ∧ _))

/-- A data directory that is laid out in order: what is named by a number in `base` is the directory
of a database, and in `pg_tblspc` a link to a tablespace, each to another one. -/
structure LaidOut (t : Tree) (data : Path) (version : String) : Prop where
  shared : ∀ e ∈ listed t (data.join "global"), e.Canonical ∧
    (e.kind = .directory → e.number? = none ∧ e.name.val ≠ version)
  databases : ∀ e ∈ listed t (data.join "base"), ∀ oid, e.number? = some oid →
    e.kind = .directory ∧ oid ≠ noOid ∧ e.name.val = oidText oid ∧
      ∀ e' ∈ listed t ((data.join "base").join e.name.val), e'.Canonical
  tablespaces : ∀ e ∈ listed t (data.join "pg_tblspc"), ∀ oid, e.number? = some oid →
    e.kind = .link ∧ IsLinked oid ∧ e.name.val = oidText oid ∧
      SpaceLaidOut t version ((data.join "pg_tblspc").join e.name.val)
  apart : ∀ e ∈ listed t (data.join "pg_tblspc"), ∀ e' ∈ listed t (data.join "pg_tblspc"),
    e.number?.isSome → e'.number?.isSome →
    ∀ there, t.resolve ((data.join "pg_tblspc").join e.name.val) = .ok there →
      t.resolve ((data.join "pg_tblspc").join e'.name.val) = .ok there → e.name = e'.name

/-! ## The directories that a walk comes to -/

/-- The directories of a layout, by the names of the way there, with what a walk knows about them and
what the layout says about their entries. -/
inductive Station (t : Tree) (data : Path) (version : String) : List String → Context → Prop
  | root {name : String} (hname : name ∈ rootNames) :
      Station t data version [name] (rootContext name)
  | database {database : Oid} (hdatabase : database ≠ noOid)
      (hfiles : ∀ e ∈ listed t ((data.join "base").join (oidText database)), e.Canonical) :
      Station t data version ["base", oidText database] ⟨noOid, database⟩
  | tablespace {tablespace : Oid} (hlinked : IsLinked tablespace)
      (hspace : SpaceLaidOut t version ((data.join "pg_tblspc").join (oidText tablespace))) :
      Station t data version ["pg_tblspc", oidText tablespace] ⟨tablespace, noOid⟩
  | version {tablespace : Oid} (hlinked : IsLinked tablespace)
      (hspace : SpaceLaidOut t version ((data.join "pg_tblspc").join (oidText tablespace))) :
      Station t data version ["pg_tblspc", oidText tablespace, version] ⟨tablespace, noOid⟩
  | inTablespace {tablespace database : Oid} (hlinked : IsLinked tablespace)
      (hdatabase : database ≠ noOid)
      (hfiles : ∀ e ∈ listed t ((((data.join "pg_tblspc").join (oidText tablespace)).join
        version).join (oidText database)),
          e.Canonical ∧ (e.kind = .directory → e.name.val ≠ version)) :
      Station t data version ["pg_tblspc", oidText tablespace, version, oidText database]
        ⟨tablespace, database⟩

namespace LaidOut

variable (hlaid : LaidOut t data version)

include hlaid

/-- From one of the directories that it starts in, a walk goes on into a database or a tablespace. -/
lemma station_of_root {name : String} (hname : name ∈ rootNames) {e : Tree.Entry}
    (he : e ∈ listed t (data.join name)) {inner : Context}
    (henter : (rootContext name).enter? version e.name.val e.kind = some inner) :
    Station t data version [name, e.name.val] inner := by
  simp only [rootNames, List.mem_cons, List.not_mem_nil, or_false] at hname
  rcases hname with rfl | rfl | rfl
  · obtain ⟨-, hplain⟩ := hlaid.shared e he
    rcases enter?_cases henter with
      ⟨oid, hkind, -, hread, -⟩ | ⟨hkind, -, hversion, -⟩ | ⟨_, -, hunknown, -⟩
    · exact absurd ((hplain hkind).1.symm.trans hread) (by simp)
    · exact absurd hversion (hplain hkind).2
    · exact absurd hunknown (by decide)
  · rcases enter?_cases henter with
      ⟨oid, -, -, hread, rfl⟩ | ⟨-, hknown, -⟩ | ⟨oid, hkind, -, hread, -⟩
    · obtain ⟨-, hoid, hname, hfiles⟩ := hlaid.databases e he oid hread
      rw [hname] at hfiles ⊢
      exact .database hoid hfiles
    · exact absurd rfl hknown
    · obtain ⟨hdirectory, -⟩ := hlaid.databases e he oid hread
      cases hkind.symm.trans hdirectory
  · rcases enter?_cases henter with
      ⟨oid, hkind, -, hread, -⟩ | ⟨-, hknown, -⟩ | ⟨oid, -, -, hread, rfl⟩
    · obtain ⟨hlink, -⟩ := hlaid.tablespaces e he oid hread
      cases hkind.symm.trans hlink
    · exact absurd rfl hknown
    · obtain ⟨-, hlinked, hname, hspace⟩ := hlaid.tablespaces e he oid hread
      rw [hname] at hspace ⊢
      exact .tablespace hlinked hspace

/-- A walk goes on from one directory of the layout to another. -/
lemma station_of_enter (hstation : Station t data version names context) {e : Tree.Entry}
    (he : e ∈ listed t (names.foldl Path.join data)) {inner : Context}
    (henter : context.enter? version e.name.val e.kind = some inner) :
    Station t data version (names ++ [e.name.val]) inner := by
  cases hstation with
  | root hname => exact hlaid.station_of_root hname he henter
  | database hdatabase hfiles =>
    rcases enter?_cases henter with ⟨_, -, hnone, -⟩ | ⟨-, hknown, -⟩ | ⟨_, -, hunknown, -⟩
    · exact absurd hnone hdatabase
    · exact absurd rfl hknown
    · exact absurd (congrArg Context.database hunknown) hdatabase
  | tablespace hlinked hspace =>
    rcases enter?_cases henter with
      ⟨oid, hkind, -, hread, -⟩ | ⟨-, -, hversion, rfl⟩ | ⟨_, -, hunknown, -⟩
    · exact absurd ((hspace.unnumbered e he hkind).symm.trans hread) (by simp)
    · rw [hversion]
      exact .version hlinked hspace
    · exact absurd (congrArg Context.tablespace hunknown) hlinked.1
  | version hlinked hspace =>
    rcases enter?_cases henter with
      ⟨oid, hkind, -, hread, rfl⟩ | ⟨hkind, -, hversion, -⟩ | ⟨_, -, hunknown, -⟩
    · obtain ⟨hoid, hname, hfiles⟩ := hspace.databases e he hkind oid hread
      rw [hname] at hfiles ⊢
      exact .inTablespace hlinked hoid hfiles
    · exact absurd hversion (hspace.unversioned e he hkind)
    · exact absurd (congrArg Context.tablespace hunknown) hlinked.1
  | inTablespace hlinked hdatabase hfiles =>
    rcases enter?_cases henter with
      ⟨_, -, hnone, -⟩ | ⟨hkind, -, hversion, -⟩ | ⟨_, -, hunknown, -⟩
    · exact absurd hnone hdatabase
    · exact absurd hversion ((hfiles e he).2 hkind)
    · exact absurd (congrArg Context.tablespace hunknown) hlinked.1

/-- A walk over a data directory that is laid out in order comes to the directories of the layout
only. -/
theorem station_of_visits (hvisits : Visits t data version names context) :
    Station t data version names context := by
  induction hvisits with
  | root hname => exact .root hname
  | enter _ he hlook ih => exact hlaid.station_of_enter ih he (enter?_of_lookAt hlook)

/-- In the directories of a layout, a walk takes files for segment files where it has come by the
names of a relation's directory, and they have the names that are written for them. -/
lemma relationDirectory_of_station (hstation : Station t data version names context)
    (hsegments : context.hasSegments = true) (number : Oid) :
    names = relationDirectory ⟨context.fileTablespace, context.database, number⟩ version ∧
      ∀ e ∈ listed t (names.foldl Path.join data), e.Canonical := by
  cases hstation with
  | root hname =>
    simp only [rootNames, List.mem_cons, List.not_mem_nil, or_false] at hname
    have hunknown : Context.hasSegments .unknown = false := rfl
    rcases hname with rfl | rfl | rfl
    · exact ⟨rfl, fun e he => (hlaid.shared e he).1⟩
    · cases hunknown.symm.trans hsegments
    · cases hunknown.symm.trans hsegments
  | database hdatabase hfiles => exact ⟨rfl, hfiles⟩
  | tablespace hlinked hspace =>
    exact absurd rfl (database_ne_of_hasSegments hsegments hlinked.2.2)
  | version hlinked hspace =>
    exact absurd rfl (database_ne_of_hasSegments hsegments hlinked.2.2)
  | inTablespace hlinked hdatabase hfiles =>
    refine ⟨?_, fun e he => (hfiles e he).1⟩
    simp [relationDirectory, Context.fileTablespace, hlinked.1, hlinked.2.1, hlinked.2.2]

/-- The paths that a walk over a data directory that is laid out in order reports lead to the
files. -/
theorem join_relativePath (hdata : data.text ≠ "") (hversion : ValidName version)
    (hf : f ∈ (Walker.ofDataDirectory version data).segments t) :
    data.join f.relativePath = f.path := by
  obtain ⟨names, context, e, hvisits, he, hlook⟩ := exists_visits_of_mem_segments hf
  obtain ⟨htablespace, hdatabase, hread, hrelative⟩ := relation_of_lookAt hlook
  obtain ⟨-, hkind, hsegments, -⟩ := lookAt_eq_file.mp hlook
  obtain ⟨hnames, hfiles⟩ := hlaid.relationDirectory_of_station (hlaid.station_of_visits hvisits)
    hsegments f.relation.number
  rw [← htablespace, ← hdatabase] at hnames
  have hname := hfiles e he hkind _ hread
  rw [hrelative, join_segmentPath_eq hdata hversion]
  exact ((path_eq_iff hdata hversion hvisits hlook).mpr ⟨hnames, hname⟩).symm

end LaidOut

/-! ## What a walk finds -/

lemma relationDirectory_of_isLinked {r : Relation} (h : IsLinked r.tablespace) (version : String) :
    relationDirectory r version
      = ["pg_tblspc", oidText r.tablespace, version, oidText r.database] := by
  simp [relationDirectory, h.2.1, h.2.2]

/-- A file that a walk finds and whose reported path leads to it is the file of a relation that is
housed in its directory. -/
lemma eq_housedSegment (hdata : data.text ≠ "") (hversion : ValidName version)
    (hf : f ∈ (Walker.ofDataDirectory version data).segments t)
    (hpath : data.join f.relativePath = f.path) :
    ∃ dir contents, Housed t data version f.relation dir ∧
      t.entryAt? (dir.join (FileName.mk f.relation.number f.fork f.index).render)
        = .ok (.file contents) ∧
      f = housedSegment version f.relation dir f.fork f.index contents.size := by
  obtain ⟨dir, hhoused, hname⟩ := housed_of_join_relativePath hdata hversion hf hpath
  obtain ⟨names, context, e, hvisits, he, hlook⟩ := exists_visits_of_mem_segments hf
  obtain ⟨-, contents, -, -, -, hentry, -⟩ :=
    exists_resolve_of_lookAt (Path.text_foldl_join_ne hdata hvisits.validNames) he hlook
  have hsize : f.size = contents.size := by
    rw [path_of_lookAt hlook] at hentry
    obtain ⟨-, -, -, n, node, -, hnode, rfl⟩ := lookAt_eq_file.mp hlook
    obtain rfl : node = .file contents := Except.ok.inj (hnode.symm.trans hentry)
    rfl
  refine ⟨dir, contents, hhoused, hname ▸ hentry, ?_⟩
  rw [housedSegment, ← hname, ← relativePath_of_mem_segments hf, ← hsize]

/-- A file in a tablespace is in the directory that the link leads to. -/
lemma resolve_of_housed_inTablespace {r : Relation} (hdata : data.text ≠ "")
    (hversion : ValidName version) (hhoused : Housed t data version r dir)
    (hlinked : IsLinked r.tablespace) {name : String} (hname : ValidName name) {contents : Contents}
    (hfile : t.entryAt? (dir.join name) = .ok (.file contents)) :
    ∃ e ∈ listed t (data.join "pg_tblspc"), ∃ space : Place, e.name.val = oidText r.tablespace ∧
      t.resolve ((data.join "pg_tblspc").join e.name.val) = .ok (.inTree space) ∧
      t.resolve (dir.join name) = .ok (.inTree
        (⟨name, hname⟩ :: ⟨oidText r.database, validName_oidText r.database⟩
          :: ⟨version, hversion⟩ :: space)) := by
  cases hhoused with
  | shared => exact absurd rfl hlinked.2.2
  | inDefault => exact absurd rfl hlinked.2.1
  | @inTablespace tablespace database number target hother hdatabase hroot hlink hspace hinner hdir =>
    have htblspc := Path.text_join_ne hdata (by rfl : (Path.mk "pg_tblspc").isAbsolute = false)
    have hspc := Path.text_join_ne htblspc (validName_oidText tablespace).isAbsolute
    have hver := Path.text_join_ne hspc hversion.isAbsolute
    have hdb := Path.text_join_ne hver (validName_oidText database).isAbsolute
    obtain ⟨space, hresolve, -⟩ := Tree.entryAt?_join hspc hversion hinner
    have hresolve₂ := Tree.resolve_join hspc hversion hinner (by simp [Node.kind]) hresolve
    have hresolve₃ := Tree.resolve_join hver (validName_oidText database) hdir (by simp [Node.kind])
      hresolve₂
    exact ⟨_, mem_listed_of_entryAt? htblspc hroot (validName_oidText tablespace) hlink, space, rfl,
      hresolve, Tree.resolve_join hdb hname hfile (by simp [Node.kind]) hresolve₃⟩

section Exact

variable (hdata : data.text ≠ "") (hversion : OrdinaryVersion version)
  (hlaid : LaidOut t data version)

include hdata hversion hlaid

/-- No file is found through two links. -/
lemma LaidOut.eq_of_resolve_eq {g : Segment}
    (hf : f ∈ (Walker.ofDataDirectory version data).segments t)
    (hg : g ∈ (Walker.ofDataDirectory version data).segments t)
    (hlinked : IsLinked f.relation.tablespace) (hlinked' : IsLinked g.relation.tablespace)
    (hsame : t.resolve f.path = t.resolve g.path) : f = g := by
  obtain ⟨dir, contents, hhoused, hfile, hpath⟩ := eq_housedSegment hdata hversion.valid hf
    (hlaid.join_relativePath hdata hversion.valid hf)
  obtain ⟨dir', contents', hhoused', hfile', hpath'⟩ := eq_housedSegment hdata hversion.valid hg
    (hlaid.join_relativePath hdata hversion.valid hg)
  replace hpath := congrArg Segment.path hpath
  replace hpath' := congrArg Segment.path hpath'
  dsimp only [housedSegment] at hpath hpath'
  obtain ⟨e, he, space, hname, hspace, hresolve⟩ := resolve_of_housed_inTablespace hdata
    hversion.valid hhoused hlinked (validName_render _) hfile
  obtain ⟨e', he', space', hname', hspace', hresolve'⟩ := resolve_of_housed_inTablespace hdata
    hversion.valid hhoused' hlinked' (validName_render _) hfile'
  rw [hpath, hpath', hresolve, hresolve', Except.ok.injEq, Standpoint.inTree.injEq] at hsame
  simp only [List.cons.injEq, Subtype.mk.injEq, true_and] at hsame
  obtain ⟨hrender, hdatabase, rfl⟩ := hsame
  have hentry := hlaid.apart e he e' he' (by simp [Tree.Entry.number?_of_name hname])
    (by simp [Tree.Entry.number?_of_name hname']) _ hspace hspace'
  have htablespace : oidText f.relation.tablespace = oidText g.relation.tablespace := by
    rw [← hname, ← hname', hentry]
  refine List.inj_on_of_nodup_map (nodup_paths hdata t version) hf hg ?_
  rw [hpath, hpath', hhoused.dir_eq, hhoused'.dir_eq, relationDirectory_of_isLinked hlinked,
    relationDirectory_of_isLinked hlinked', htablespace, hdatabase, hrender]

/-- **Exactly the files of the layout.**  In a data directory that is laid out in order, a walk finds
the segment files in the directories where relations are housed, and nothing else, whatever there
may be besides.  What it says about such a file is what the place and the name say.  It finds no file
twice: neither the paths nor what they are found to be agree for two files, and no file is found
through two links. -/
theorem segments_of_laidOut :
    (∀ f, f ∈ (Walker.ofDataDirectory version data).segments t ↔
      ∃ r dir fork index contents, Housed t data version r dir ∧
        t.entryAt? (dir.join (FileName.mk r.number fork index).render) = .ok (.file contents) ∧
        f = housedSegment version r dir fork index contents.size) ∧
    (((Walker.ofDataDirectory version data).segments t).map Segment.path).Nodup ∧
    (((Walker.ofDataDirectory version data).segments t).map
      fun f => (f.relation, f.fork, f.index)).Nodup ∧
    (∀ f ∈ (Walker.ofDataDirectory version data).segments t,
      data.join f.relativePath = f.path) ∧
    ∀ f ∈ (Walker.ofDataDirectory version data).segments t,
      ∀ g ∈ (Walker.ofDataDirectory version data).segments t,
        IsLinked f.relation.tablespace → IsLinked g.relation.tablespace →
          t.resolve f.path = t.resolve g.path → f = g := by
  have hpaths : ∀ f ∈ (Walker.ofDataDirectory version data).segments t,
      data.join f.relativePath = f.path :=
    fun f hf => hlaid.join_relativePath hdata hversion.valid hf
  refine ⟨fun f => ⟨fun hf => ?_, ?_⟩, nodup_paths hdata t version, ?_, hpaths,
    fun f hf g hg => hlaid.eq_of_resolve_eq hdata hversion hf hg⟩
  · obtain ⟨dir, contents, hfound⟩ := eq_housedSegment hdata hversion.valid hf (hpaths f hf)
    exact ⟨_, dir, _, _, contents, hfound⟩
  · rintro ⟨r, dir, fork, index, contents, hhoused, hfile, rfl⟩
    exact housedSegment_mem_segments hdata hversion hhoused hfile
  · -- what a file is found to be tells its path
    refine List.Nodup.of_map (fun found => segmentPath found.1 found.2.1 found.2.2 version) ?_
    rw [List.map_map]
    have hrelative : ((Walker.ofDataDirectory version data).segments t).map
        ((fun found => segmentPath found.1 found.2.1 found.2.2 version) ∘
          fun f => (f.relation, f.fork, f.index))
        = ((Walker.ofDataDirectory version data).segments t).map Segment.relativePath :=
      List.map_congr_left fun f hf => (relativePath_of_mem_segments hf).symm
    rw [hrelative]
    exact nodup_relativePaths hdata hpaths

end Exact

/-- The tablespace of `linkedTree` has one database with one file. -/
lemma spaceLaidOut_linkedTree :
    SpaceLaidOut linkedTree "v1" (((Path.mk "d").join "pg_tblspc").join "16500") := by
  have hspace : linkedTree.resolve (((Path.mk "d").join "pg_tblspc").join "16500")
      = .ok (.inTree [⟨"t", by decide⟩]) := by decide +kernel
  have hversion : linkedTree.resolve ((((Path.mk "d").join "pg_tblspc").join "16500").join "v1")
      = .ok (.inTree [⟨"v1", by decide⟩, ⟨"t", by decide⟩]) := by decide +kernel
  have hdatabase : linkedTree.resolve
      (((((Path.mk "d").join "pg_tblspc").join "16500").join "v1").join "5")
        = .ok (.inTree [⟨"5", by decide⟩, ⟨"v1", by decide⟩, ⟨"t", by decide⟩]) := by
    decide +kernel
  have hchildren : linkedTree.children [⟨"v1", by decide⟩, ⟨"t", by decide⟩]
      = [(⟨"5", by decide⟩, .directory true)] := by decide +kernel
  have hfiles : linkedTree.children [⟨"5", by decide⟩, ⟨"v1", by decide⟩, ⟨"t", by decide⟩]
      = [(⟨"16384", by decide⟩, .file (.zeros 0))] := by decide +kernel
  refine ⟨forall_listed hspace (by decide +kernel), forall_listed hversion (by decide +kernel),
    forall_listed hversion ?_⟩
  rw [hchildren, List.forall_mem_singleton]
  intro _ oid hoid
  have hname : "5" = oidText 5 := by decide +kernel
  obtain rfl : 5 = oid := Option.some.inj ((Tree.Entry.number?_of_name hname).symm.trans hoid)
  refine ⟨by decide, hname, forall_listed hdatabase ?_⟩
  rw [hfiles, List.forall_mem_singleton]
  have hfile : "16384" = (FileName.mk 16384 .main 0).render := by decide +kernel
  exact ⟨Tree.Entry.canonical_of_name hfile, by decide⟩

lemma laidOut_linkedTree : LaidOut linkedTree ⟨"d"⟩ "v1" := by
  have htblspc : linkedTree.resolve ((Path.mk "d").join "pg_tblspc")
      = .ok (.inTree [⟨"pg_tblspc", by decide⟩, ⟨"d", by decide⟩]) := by decide +kernel
  have hchildren : linkedTree.children [⟨"pg_tblspc", by decide⟩, ⟨"d", by decide⟩]
      = [(⟨"16500", by decide⟩, .link "../../t")] := by decide +kernel
  have hname : "16500" = oidText 16500 := by decide +kernel
  refine ⟨forall_listed_of_not_isListable (by decide +kernel),
    forall_listed_of_not_isListable (by decide +kernel), forall_listed htblspc ?_,
    forall_listed htblspc ?_⟩
  · rw [hchildren, List.forall_mem_singleton]
    intro oid hoid
    obtain rfl : 16500 = oid := Option.some.inj ((Tree.Entry.number?_of_name hname).symm.trans hoid)
    exact ⟨rfl, by decide, hname, spaceLaidOut_linkedTree⟩
  · rw [hchildren, List.forall_mem_singleton]
    refine forall_listed htblspc ?_
    rw [hchildren, List.forall_mem_singleton]
    exact fun _ _ _ _ _ => rfl

/-- The file behind the link is found, and what it is found to be is found once. -/
theorem segments_of_laidOut_linked :
    housedSegment "v1" ⟨16500, 5, 16384⟩ ⟨"d/pg_tblspc/16500/v1/5"⟩ .main 0 0
        ∈ (Walker.ofDataDirectory "v1" ⟨"d"⟩).segments linkedTree ∧
      (((Walker.ofDataDirectory "v1" ⟨"d"⟩).segments linkedTree).map
        fun f => (f.relation, f.fork, f.index)).Nodup := by
  have hversion : OrdinaryVersion "v1" := ⟨by decide, by decide, by decide⟩
  have hdata : (Path.mk "d").text ≠ "" := by decide
  obtain ⟨hmem, -, hnodup, -⟩ := segments_of_laidOut hdata hversion laidOut_linkedTree
  refine ⟨(hmem _).mpr ⟨_, _, .main, 0, .zeros 0, housed_linkedTree, ?_, ?_⟩, hnodup⟩
  · decide +kernel
  · decide +kernel

/-! ## Paths that are too long -/

/-- A path of the given number of bytes, to which more can be joined. -/
structure Path.Sized (p : Path) (size : Nat) : Prop where
  size_eq : p.text.utf8ByteSize = size
  text_ne : p.text ≠ ""
  slashEnded : p.slashEnded = false
  no_null : '\x00' ∉ p.text.toList

/-- The path with dots behind it, which lead nowhere else. -/
def Path.dotted (p : Path) : Nat → Path
  | 0 => p
  | dots + 1 => (p.dotted dots).join "."

namespace Path.Sized

variable {p : Path} {size size' : Nat} {further : String} (h : p.Sized size)

include h

lemma join (hrelative : (Path.mk further).isAbsolute = false)
    (hfurther : (Path.mk further).Sized size') : (p.join further).Sized (size + 1 + size') := by
  have htext : p.join further = ⟨p.text ++ "/" ++ further⟩ := by
    rw [join_eq h.text_ne hrelative, lead, h.slashEnded]
    rfl
  refine ⟨?_, text_join_ne h.text_ne hrelative, ?_, ?_⟩
  · rw [htext, ← h.size_eq, ← hfurther.size_eq, String.utf8ByteSize_append,
      String.utf8ByteSize_append]
    rfl
  · rw [slashEnded_join h.text_ne hrelative hfurther.text_ne, hfurther.slashEnded]
  · simp [htext, h.no_null, hfurther.no_null]

lemma join_name {name : String} (hname : ValidName name) (hnull : '\x00' ∉ name.toList) :
    (p.join name).Sized (size + 1 + name.utf8ByteSize) :=
  h.join hname.isAbsolute ⟨rfl, hname.1, hname.slashEnded, hnull⟩

lemma dotted (dots : Nat) : (p.dotted dots).Sized (size + 2 * dots) := by
  have hdot : (Path.mk ".").Sized 1 := ⟨by decide, by decide, by decide, by decide⟩
  induction dots with
  | zero => exact h
  | succ dots ih =>
    have hjoin := ih.join rfl hdot
    rwa [show size + 2 * dots + 1 + 1 = size + 2 * (dots + 1) by omega] at hjoin

lemma checkPath (hsize : size < Tree.pathLimit) : Tree.checkPath p = .ok () :=
  Tree.checkPath_eq_ok.mpr ⟨h.no_null, h.text_ne, h.size_eq.trans_lt hsize⟩

/-- As long as a path is not too long, dots behind it make no difference. -/
lemma resolve_dotted {there : Standpoint} (hresolve : t.resolve p = .ok there)
    (hdir : t.isDirectoryAt there = true) (dots : Nat) (hsize : size + 2 * dots < Tree.pathLimit) :
    t.resolve (p.dotted dots) = .ok there := by
  induction dots with
  | zero => exact hresolve
  | succ dots ih =>
    have hshorter := h.dotted dots
    have hlonger := h.dotted (dots + 1)
    obtain ⟨here, left, hstart, hwalk⟩ := Tree.exists_walk_of_resolve (ih (by omega))
    obtain ⟨-, hhere⟩ := Tree.start_eq_ok.mp hstart
    have hstart' : t.start (p.dotted (dots + 1)) = .ok here := by
      refine Tree.start_eq_ok.mpr ⟨hlonger.checkPath hsize, ?_⟩
      rw [hhere, Path.dotted, isAbsolute_join hshorter.text_ne rfl]
    have hsteps : (p.dotted (dots + 1)).plainSteps = (p.dotted dots).plainSteps ++ [.stay] := by
      rw [Path.dotted, plainSteps_join hshorter.text_ne rfl]
      rfl
    have hwalk' : t.walk Tree.linkLimit here (p.dotted (dots + 1)).plainSteps
        = .ok (left, there) := by
      rw [hsteps, Tree.walk_append, hwalk]
      exact Tree.walk_stay hdir
    exact Tree.resolve_of_directory hstart' hwalk' hdir

/-- A path leads on to a directory as long as it is not too long. -/
lemma resolve_join {place : Place} {readable : Bool} {name : String} (hname : ValidName name)
    (hresolve : t.resolve p = .ok (.inTree place)) (hdir : t.isDirectory place = true)
    (hsized : (p.join name).Sized size') (hsize : size' < Tree.pathLimit)
    (hlimit : name.utf8ByteSize ≤ Tree.nameLimit)
    (hfind : t.find? (⟨name, hname⟩ :: place) = some (.directory readable)) :
    t.entryAt? (p.join name) = .ok (.directory readable) ∧
      t.resolve (p.join name) = .ok (.inTree (⟨name, hname⟩ :: place)) := by
  have hentry := (Tree.entryAt?_join_iff h.text_ne hname hresolve hdir).mpr
    ⟨hsized.checkPath hsize, hlimit, hfind⟩
  exact ⟨hentry, Tree.resolve_join h.text_ne hname hentry (by simp [Node.kind]) hresolve⟩

end Path.Sized

/-- A data directory `d` with one file in one database. -/
def plainTree : Tree where
  entries :=
    [([.ofText "d"], .directory true),
      ([.ofText "global", .ofText "d"], .directory true),
      ([.ofText "pg_tblspc", .ofText "d"], .directory true),
      ([.ofText "base", .ofText "d"], .directory true),
      ([.ofText "5", .ofText "base", .ofText "d"], .directory true),
      ([.ofText "16384", .ofText "5", .ofText "base", .ofText "d"],
        .file (.zeros 8192))]
  working := .root
  nodup := by decide

/-- The path `d`, with so many dots behind it that it can be led on to the database, but not to the
file. -/
def farPath : Path := (Path.mk "d").dotted 2042

lemma sized_farPath : farPath.Sized 4085 :=
  Path.Sized.dotted ⟨by decide, by decide, by decide, by decide⟩ 2042

lemma resolve_farPath : plainTree.resolve farPath = .ok (.inTree [⟨"d", by decide⟩]) := by
  have hd : (Path.mk "d").Sized 1 := ⟨by decide, by decide, by decide, by decide⟩
  exact hd.resolve_dotted (by decide +kernel) (by decide +kernel) 2042 (by decide)

/-- One level below `farPath`, paths are not too long, and lead where they would from `d`. -/
lemma resolve_join_farPath {name : String} (hname : ValidName name) (hnull : '\x00' ∉ name.toList)
    (hsize : name.utf8ByteSize < 10)
    (hfind : plainTree.find? [⟨name, hname⟩, ⟨"d", by decide⟩] = some (.directory true)) :
    plainTree.resolve (farPath.join name) = .ok (.inTree [⟨name, hname⟩, ⟨"d", by decide⟩]) := by
  have hlonger := sized_farPath.join_name hname hnull
  have hlimit : name.utf8ByteSize ≤ Tree.nameLimit := by
    unfold Tree.nameLimit
    omega
  have hshort : 4085 + 1 + name.utf8ByteSize < Tree.pathLimit := by
    unfold Tree.pathLimit
    omega
  exact (sized_farPath.resolve_join hname resolve_farPath (by decide +kernel) hlonger hshort hlimit
    hfind).2

lemma resolve_base_farPath :
    plainTree.resolve (farPath.join "base")
      = .ok (.inTree [⟨"base", by decide⟩, ⟨"d", by decide⟩]) :=
  resolve_join_farPath (by decide) (by decide) (by decide) (by decide +kernel)

lemma sized_base_farPath : (farPath.join "base").Sized 4090 :=
  sized_farPath.join_name (by decide) (by decide)

lemma sized_database_farPath : ((farPath.join "base").join "5").Sized 4092 :=
  sized_base_farPath.join_name (by decide) (by decide)

/-- The database's directory can be looked up by its path below `farPath`. -/
lemma database_farPath :
    plainTree.entryAt? ((farPath.join "base").join "5") = .ok (.directory true) ∧
      plainTree.resolve ((farPath.join "base").join "5")
        = .ok (.inTree [⟨"5", by decide⟩, ⟨"base", by decide⟩, ⟨"d", by decide⟩]) :=
  sized_base_farPath.resolve_join (by decide) resolve_base_farPath (by decide +kernel)
    sized_database_farPath (by decide) (by decide) (by decide +kernel)

/-- The file is in the listing of the database's directory. -/
lemma mem_listed_farPath :
    ⟨⟨"16384", by decide⟩, .file⟩ ∈ listed plainTree ((farPath.join "base").join "5") :=
  mem_listed_iff.mpr
    ⟨_, .file (.zeros 8192), database_farPath.2, by decide +kernel, by decide +kernel, rfl⟩

lemma laidOut_farPath : LaidOut plainTree farPath "v1" := by
  have hglobal : plainTree.resolve (farPath.join "global")
      = .ok (.inTree [⟨"global", by decide⟩, ⟨"d", by decide⟩]) :=
    resolve_join_farPath (by decide) (by decide) (by decide) (by decide +kernel)
  have htblspc : plainTree.resolve (farPath.join "pg_tblspc")
      = .ok (.inTree [⟨"pg_tblspc", by decide⟩, ⟨"d", by decide⟩]) :=
    resolve_join_farPath (by decide) (by decide) (by decide) (by decide +kernel)
  have hnone : plainTree.children [⟨"global", by decide⟩, ⟨"d", by decide⟩] = [] := by
    decide +kernel
  have hnone' : plainTree.children [⟨"pg_tblspc", by decide⟩, ⟨"d", by decide⟩] = [] := by
    decide +kernel
  have hdatabases : plainTree.children [⟨"base", by decide⟩, ⟨"d", by decide⟩]
      = [(⟨"5", by decide⟩, .directory true)] := by decide +kernel
  have hfiles : plainTree.children [⟨"5", by decide⟩, ⟨"base", by decide⟩, ⟨"d", by decide⟩]
      = [(⟨"16384", by decide⟩, .file (.zeros 8192))] := by decide +kernel
  refine ⟨forall_listed hglobal (by simp [hnone]), forall_listed resolve_base_farPath ?_,
    forall_listed htblspc (by simp [hnone']), forall_listed htblspc (by simp [hnone'])⟩
  rw [hdatabases, List.forall_mem_singleton]
  intro oid hoid
  have hname : "5" = oidText 5 := by decide +kernel
  obtain rfl : 5 = oid := Option.some.inj ((Tree.Entry.number?_of_name hname).symm.trans hoid)
  refine ⟨rfl, by decide, hname, forall_listed database_farPath.2 ?_⟩
  rw [hfiles, List.forall_mem_singleton]
  have hfile : "16384" = (FileName.mk 16384 .main 0).render := by decide +kernel
  exact Tree.Entry.canonical_of_name hfile

/-- A file of a data directory that is laid out in order which no walk finds: the directory that it is
in can be listed and the file is in the listing, but the path to the file is too long. -/
theorem segments_pass_over_long_path :
    OrdinaryVersion "v1" ∧ LaidOut plainTree farPath "v1" ∧
      plainTree.resolve farPath = plainTree.resolve ⟨"d"⟩ ∧
      plainTree.entryAt? ((farPath.join "base").join "5") = .ok (.directory true) ∧
      ⟨⟨"16384", by decide⟩, .file⟩ ∈ listed plainTree ((farPath.join "base").join "5") ∧
      ∀ f ∈ (Walker.ofDataDirectory "v1" farPath).segments plainTree,
        f.path ≠ ((farPath.join "base").join "5").join "16384" := by
  have hd : plainTree.resolve ⟨"d"⟩ = .ok (.inTree [⟨"d", by decide⟩]) := by decide +kernel
  refine ⟨⟨by decide, by decide, by decide⟩, laidOut_farPath, resolve_farPath.trans hd.symm,
    database_farPath.1, mem_listed_farPath, fun f hf hpath => ?_⟩
  obtain ⟨names, context, e, hvisits, he, hlook⟩ := exists_visits_of_mem_segments hf
  obtain ⟨-, contents, -, -, -, hentry, -⟩ := exists_resolve_of_lookAt
    (Path.text_foldl_join_ne sized_farPath.text_ne hvisits.validNames) he hlook
  have hshort := Tree.size_lt_of_entryAt? hentry
  rw [hpath, (sized_database_farPath.join_name (by decide) (by decide)).size_eq] at hshort
  exact absurd hshort (by decide)

end ChangeTracking
