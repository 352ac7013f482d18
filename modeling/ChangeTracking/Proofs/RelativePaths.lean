import ChangeTracking.Proofs.Scanning
import ChangeTracking.Proofs.Visits

/-!
# Reported paths

A walk finds each file once: no two of the files that it finds have the same path
(`nodup_paths`).  The path below the data directory that it reports is not taken from the way,
however, but put together from the numbers that the names on the way were read as.  So it leads to
the file exactly if the file is in the directory of its relation and has the name that is written
for it (`path_eq_iff`).

On a way that goes by the names of a relation's directory, what the walk knows and where the
relation is housed say the same: what is known excludes all other ways of reading these names
(`housed_of_visits`), and where the relation is housed nothing else can be known
(`context_of_housed`).  But a name is read with any number of leading zeros, and two files whose
names differ in that only are reported with one path (`respelledTree`).
-/

namespace ChangeTracking

open Layout Walk

variable {t : Tree} {data dir : Path} {version : String} {context : Context} {f g : Segment}

/-! ## Each file is found once -/

/-- The path of what an entry stands for leads on over the entry. -/
lemma exists_components_of_mem_segmentsOf (hdir : dir.text ≠ "") {room : Nat} {e : Tree.Entry}
    (hf : f ∈ segmentsOf t version (listing t version room) dir context e) :
    ∃ further, f.path.components = dir.components ++ .name e.name.val :: further := by
  have hjoin := e.name.property.components_join hdir
  unfold segmentsOf at hf
  cases hlook : lookAt t version dir context e with
  | skip => simp [hlook] at hf
  | file f' =>
    rw [hlook, List.mem_singleton] at hf
    refine ⟨[], ?_⟩
    rw [hf, path_of_lookAt hlook, hjoin]
  | enter inner =>
    rw [hlook] at hf
    obtain ⟨further, -, hcomponents⟩ :=
      isBelow_of_mem_listing (Path.text_join_ne hdir e.name.property.isAbsolute) hf
    refine ⟨further, ?_⟩
    rw [hcomponents, hjoin, List.append_assoc]
    rfl

lemma nodup_paths_listing (hdir : dir.text ≠ "") (room : Nat) :
    ((listing t version room dir context).map Segment.path).Nodup := by
  induction room generalizing dir context with
  | zero => exact List.nodup_nil
  | succ room ih =>
    rw [listing, List.map_flatMap, List.nodup_flatMap]
    constructor
    · intro e _
      unfold segmentsOf
      cases lookAt t version dir context e with
      | skip => exact List.nodup_nil
      | file f => exact List.nodup_singleton _
      | enter inner => exact ih (Path.text_join_ne hdir e.name.property.isAbsolute)
    · have hnames := nodup_names_listed t dir
      rw [List.Nodup, List.pairwise_map] at hnames
      refine hnames.imp fun {e e'} hother => ?_
      rw [Function.onFun_apply, List.disjoint_left]
      intro path hpath hpath'
      obtain ⟨f, hf, rfl⟩ := List.mem_map.mp hpath
      obtain ⟨g, hg, hsame⟩ := List.mem_map.mp hpath'
      obtain ⟨further, hcomponents⟩ := exists_components_of_mem_segmentsOf hdir hf
      obtain ⟨further', hcomponents'⟩ := exists_components_of_mem_segmentsOf hdir hg
      rw [hsame, hcomponents, List.append_cancel_left_eq, List.cons.injEq] at hcomponents'
      exact hother (Subtype.ext (Path.Component.name.inj hcomponents'.1))

/-- No two files that a walk over a data directory finds have the same path. -/
theorem nodup_paths (hdata : data.text ≠ "") (t : Tree) (version : String) :
    (((Walker.ofDataDirectory version data).segments t).map Segment.path).Nodup := by
  rw [segments_ofDataDirectory, List.map_flatMap, List.nodup_flatMap]
  constructor
  · intro name hname
    have hvalid := validName_of_mem_rootNames name hname
    exact nodup_paths_listing (Path.text_join_ne hdata hvalid.isAbsolute) _
  · have hnames : rootNames.Pairwise (· ≠ ·) := by decide
    refine hnames.imp_of_mem fun {name name'} hname hname' hother => ?_
    rw [Function.onFun_apply, List.disjoint_left]
    intro path hpath hpath'
    obtain ⟨f, hf, rfl⟩ := List.mem_map.mp hpath
    obtain ⟨g, hg, hsame⟩ := List.mem_map.mp hpath'
    have hvalid := validName_of_mem_rootNames name hname
    have hvalid' := validName_of_mem_rootNames name' hname'
    have hbelow := isBelow_of_mem_listing (Path.text_join_ne hdata hvalid.isAbsolute) hf
    have hbelow' := isBelow_of_mem_listing (Path.text_join_ne hdata hvalid'.isAbsolute) hg
    rw [hsame] at hbelow'
    exact hother (hbelow.name_eq hdata hvalid hvalid' hbelow')

/-- Files that are found and whose reported paths lead to them are reported with different paths. -/
lemma nodup_relativePaths (hdata : data.text ≠ "")
    (hall : ∀ f ∈ (Walker.ofDataDirectory version data).segments t,
      data.join f.relativePath = f.path) :
    (((Walker.ofDataDirectory version data).segments t).map Segment.relativePath).Nodup := by
  refine List.Nodup.of_map data.join ?_
  rw [List.map_map]
  have hpaths : ((Walker.ofDataDirectory version data).segments t).map
      (data.join ∘ Segment.relativePath)
        = ((Walker.ofDataDirectory version data).segments t).map Segment.path :=
    List.map_congr_left hall
  rw [hpaths]
  exact nodup_paths hdata t version

/-! ## The directory of a relation -/

/-- What a walk says about a file: the numbers are those of the context and of the name, and the path
that is reported is put together from them. -/
lemma relation_of_lookAt {e : Tree.Entry} (h : lookAt t version dir context e = .file f) :
    f.relation.tablespace = context.fileTablespace ∧ f.relation.database = context.database ∧
      FileName.read? e.name.val = some ⟨f.relation.number, f.fork, f.index⟩ ∧
      f.relativePath = segmentPath f.relation f.fork f.index version := by
  obtain ⟨-, -, -, n, node, hread, -, rfl⟩ := lookAt_eq_file.mp h
  exact ⟨rfl, rfl, hread, rfl⟩

/-- The path that a walk reports is put together from what the file is found to be. -/
lemma relativePath_of_mem_segments (hf : f ∈ (Walker.ofDataDirectory version data).segments t) :
    f.relativePath = segmentPath f.relation f.fork f.index version := by
  obtain ⟨names, context, e, -, -, hlook⟩ := exists_visits_of_mem_segments hf
  exact (relation_of_lookAt hlook).2.2.2

section Directories

variable {r : Relation} (hdata : data.text ≠ "")

/-- Only the tablespace that all databases share has files outside of databases. -/
lemma database_ne_of_hasSegments (hsegments : context.hasSegments = true)
    (hother : context.tablespace ≠ sharedTablespace) : context.database ≠ noOid := by
  intro hnone
  simp [Context.hasSegments, hnone, hother] at hsegments

/-- A tablespace that is not the default one is that of the files only where it is known. -/
lemma tablespace_eq_of_fileTablespace (hother : context.fileTablespace ≠ defaultTablespace) :
    context.tablespace = context.fileTablespace ∧ context.tablespace ≠ noOid := by
  unfold Context.fileTablespace at hother ⊢
  split
  · next hnone => exact absurd (if_pos hnone) hother
  · next hknown => exact ⟨rfl, hknown⟩

lemma kind_eq_of_listed (hdir : dir.text ≠ "") {e : Tree.Entry} (he : e ∈ listed t dir) {node : Node}
    (hnode : t.entryAt? (dir.join e.name.val) = .ok node) : e.kind = node.kind :=
  kind_of_mem_listed hdir e.name.property hnode he

/-- The way to a directory of a tablespace, entry by entry: from `pg_tblspc`, over the tablespace
and the version, to the database. -/
lemma Visits.tblspc_inv {tablespace database : String}
    (h : Visits t data version ["pg_tblspc", tablespace, version, database] context) :
    ∃ middle inner e₁ e₂ e₃,
      e₁ ∈ listed t (data.join "pg_tblspc") ∧ e₁.name.val = tablespace ∧
      Context.unknown.enter? version tablespace e₁.kind = some middle ∧
      e₂ ∈ listed t ((data.join "pg_tblspc").join tablespace) ∧ e₂.name.val = version ∧
      middle.enter? version version e₂.kind = some inner ∧
      e₃ ∈ listed t (((data.join "pg_tblspc").join tablespace).join version) ∧
      e₃.name.val = database ∧ inner.enter? version database e₃.kind = some context := by
  obtain ⟨inner, e₃, hversion, he₃, hname₃, hlook₃⟩ :=
    Visits.enter_inv (List.cons_ne_nil "pg_tblspc" [tablespace, version]) h
  obtain ⟨middle, e₂, hspace, he₂, hname₂, hlook₂⟩ :=
    Visits.enter_inv (List.cons_ne_nil "pg_tblspc" [tablespace]) hversion
  obtain ⟨outer, e₁, hroot, he₁, hname₁, hlook₁⟩ :=
    Visits.enter_inv (List.cons_ne_nil "pg_tblspc" []) hspace
  obtain rfl : outer = .unknown := hroot.root_inv.2
  have henter₁ := enter?_of_lookAt hlook₁
  have henter₂ := enter?_of_lookAt hlook₂
  have henter₃ := enter?_of_lookAt hlook₃
  rw [hname₁] at henter₁
  rw [hname₂] at henter₂
  rw [hname₃] at henter₃
  exact ⟨middle, inner, e₁, e₂, e₃, he₁, hname₁, henter₁, he₂, hname₂, henter₂, he₃, hname₃,
    henter₃⟩

/-- The way to a directory of `base`. -/
lemma Visits.base_inv {database : String} (h : Visits t data version ["base", database] context) :
    ∃ e ∈ listed t (data.join "base"), e.name.val = database ∧
      Context.unknown.enter? version database e.kind = some context := by
  obtain ⟨outer, e, hroot, he, hname, hlook⟩ := Visits.enter_inv (List.cons_ne_nil "base" []) h
  obtain rfl : outer = .unknown := hroot.root_inv.2
  exact ⟨e, he, hname, hname ▸ enter?_of_lookAt hlook⟩

include hdata

/-- A walk that has come to `base` and by a number from there is in the directory of a database. -/
lemma housed_of_visits_base {database number : Oid}
    (hvisits : Visits t data version ["base", oidText database] context)
    (hdatabase : database = context.database) (hsegments : context.hasSegments = true)
    (hlist : t.isListable ((data.join "base").join (oidText database)) = true) :
    Housed t data version ⟨defaultTablespace, database, number⟩
      ((data.join "base").join (oidText database)) := by
  have hbase := Path.text_join_ne hdata (by rfl : (Path.mk "base").isAbsolute = false)
  obtain ⟨e, he, hname, henter⟩ := hvisits.base_inv
  have hnone : Context.hasSegments ⟨noOid, noOid⟩ = false := rfl
  rcases enter?_cases henter with
    ⟨_, hkind, -, -, rfl⟩ | ⟨-, hknown, -⟩ | ⟨tablespace, -, -, hread, rfl⟩
  · refine .inDefault ?_ (isListable_of_mem_listed he) ?_
    · intro hzero
      have hinside := database_ne_of_hasSegments hsegments (by decide : noOid ≠ sharedTablespace)
      exact hinside (hdatabase.symm.trans hzero)
    · rw [← hname] at hlist ⊢
      exact entryAt?_eq_of_listed hbase he hlist hkind
  · exact absurd rfl hknown
  · -- a link named by zero would be a tablespace of which nothing is known
    rw [readOid?_oidText, Option.some.injEq, hdatabase] at hread
    have hzero : tablespace = noOid := hread.symm
    rw [hzero] at hsegments
    cases hnone.symm.trans hsegments

/-- A walk that has come to a directory of `pg_tblspc` by the names of a relation there has come to
it over a link and through the version's directory. -/
lemma housed_of_visits_tblspc (hversion : ValidName version) {tablespace database number : Oid}
    (hother : tablespace ≠ defaultTablespace ∧ tablespace ≠ sharedTablespace)
    (hvisits : Visits t data version
      ["pg_tblspc", oidText tablespace, version, oidText database] context)
    (htablespace : tablespace = context.fileTablespace) (hdatabase : database = context.database)
    (hsegments : context.hasSegments = true)
    (hlist : t.isListable ((((data.join "pg_tblspc").join (oidText tablespace)).join version).join
      (oidText database)) = true) :
    Housed t data version ⟨tablespace, database, number⟩
      ((((data.join "pg_tblspc").join (oidText tablespace)).join version).join
        (oidText database)) := by
  have htblspc := Path.text_join_ne hdata (by rfl : (Path.mk "pg_tblspc").isAbsolute = false)
  have hspc := Path.text_join_ne htblspc (validName_oidText tablespace).isAbsolute
  have hver := Path.text_join_ne hspc hversion.isAbsolute
  obtain ⟨hcontext, hknown⟩ := tablespace_eq_of_fileTablespace (htablespace ▸ hother.1)
  rw [← htablespace] at hcontext
  rw [hcontext] at hknown
  have hinside : context.database ≠ noOid :=
    database_ne_of_hasSegments hsegments (hcontext ▸ hother.2)
  obtain ⟨middle, inner, e₁, e₂, e₃, he₁, hname₁, henter₁, he₂, hname₂, henter₂, he₃, hname₃,
    henter₃⟩ := hvisits.tblspc_inv
  -- only a link can have made the tablespace known
  have hmiddle : e₁.kind = .link ∧ middle = ⟨tablespace, noOid⟩ ∨ middle = ⟨noOid, tablespace⟩ := by
    rcases enter?_cases henter₁ with
      ⟨_, -, -, hread, rfl⟩ | ⟨-, hunknown, -⟩ | ⟨_, hkind, -, hread, rfl⟩
    · rw [readOid?_oidText, Option.some.injEq] at hread
      exact .inr (hread ▸ rfl)
    · exact absurd rfl hunknown
    · rw [readOid?_oidText, Option.some.injEq] at hread
      exact .inl ⟨hkind, hread ▸ rfl⟩
  have hinner : e₃.kind = .directory ∧ inner = ⟨tablespace, noOid⟩ := by
    rcases enter?_cases henter₃ with ⟨_, hkind, hnone, -, rfl⟩ | ⟨-, -, -, rfl⟩ | ⟨_, -, -, -, rfl⟩
    · refine ⟨hkind, ?_⟩
      rw [← hcontext, ← hnone]
    · exact absurd rfl hinside
    · exact absurd rfl hinside
  obtain ⟨hkind₃, rfl⟩ := hinner
  obtain ⟨hkind₂, hlink⟩ : e₂.kind = .directory ∧ e₁.kind = .link := by
    rcases hmiddle with ⟨hlink, rfl⟩ | rfl
    · exact ⟨kind_of_enter? hknown henter₂, hlink⟩
    · rcases enter?_cases henter₂ with ⟨_, -, hnone, -⟩ | ⟨-, hunknown, -⟩ | ⟨_, -, hunknown, -⟩
      · exact absurd hnone hknown
      · exact absurd rfl hunknown
      · exact absurd (congrArg Context.database hunknown) hknown
  have hspace := isListable_of_mem_listed he₂
  have hinner := isListable_of_mem_listed he₃
  obtain ⟨target, hentry₁⟩ : ∃ target,
      t.entryAt? ((data.join "pg_tblspc").join (oidText tablespace)) = .ok (.link target) := by
    rw [← hname₁] at hspace ⊢
    obtain ⟨node, hentry, hnode⟩ := exists_entryAt?_of_listed htblspc he₁ hspace
    rw [hlink] at hnode
    cases node with
    | file | directory => cases hnode
    | link target => exact ⟨target, hentry⟩
  refine .inTablespace ⟨hknown, hother⟩ (hdatabase ▸ hinside) (isListable_of_mem_listed he₁)
    hentry₁ hspace ?_ ?_
  · rw [← hname₂] at hinner ⊢
    exact entryAt?_eq_of_listed hspc he₂ hinner hkind₂
  · rw [← hname₃] at hlist ⊢
    exact entryAt?_eq_of_listed hver he₃ hlist hkind₃

/-- A walk that has come by the names of a relation's directory, and takes files there for the
relation's, is where the relation is housed. -/
theorem housed_of_visits (hversion : ValidName version)
    (hvisits : Visits t data version (relationDirectory r version) context)
    (htablespace : r.tablespace = context.fileTablespace) (hdatabase : r.database = context.database)
    (hsegments : context.hasSegments = true)
    (hlist : t.isListable ((relationDirectory r version).foldl Path.join data) = true) :
    Housed t data version r ((relationDirectory r version).foldl Path.join data) := by
  obtain ⟨tablespace, database, number⟩ := r
  by_cases hshared : tablespace = sharedTablespace
  · subst hshared
    have hcontext : context = ⟨sharedTablespace, noOid⟩ := hvisits.root_inv.2
    obtain rfl : database = noOid := hdatabase.trans (congrArg Context.database hcontext)
    exact .shared hlist
  · by_cases hdefault : tablespace = defaultTablespace
    · subst hdefault
      exact housed_of_visits_base hdata hvisits hdatabase hsegments hlist
    · have hdirectory : relationDirectory ⟨tablespace, database, number⟩ version
          = ["pg_tblspc", oidText tablespace, version, oidText database] := by
        simp [relationDirectory, hshared, hdefault]
      rw [hdirectory] at hvisits hlist ⊢
      exact housed_of_visits_tblspc hdata hversion ⟨hdefault, hshared⟩ hvisits htablespace hdatabase
        hsegments hlist

/-- Where a relation is housed, a walk that takes files for segment files takes them for the
relation's. -/
theorem context_of_housed (hhoused : Housed t data version r dir)
    (hvisits : Visits t data version (relationDirectory r version) context)
    (hsegments : context.hasSegments = true) :
    context.fileTablespace = r.tablespace ∧ context.database = r.database := by
  cases hhoused with
  | shared hroot =>
    have hcontext : context = ⟨sharedTablespace, noOid⟩ := hvisits.root_inv.2
    rw [hcontext]
    exact ⟨rfl, rfl⟩
  | @inDefault database number hdatabase hroot hdir =>
    have hbase := Path.text_join_ne hdata (by rfl : (Path.mk "base").isAbsolute = false)
    obtain ⟨e, he, hname, henter⟩ := Visits.base_inv hvisits
    rw [← hname] at hdir
    have hkind : e.kind = .directory := kind_eq_of_listed hbase he hdir
    rcases enter?_cases henter with ⟨_, -, -, hread, rfl⟩ | ⟨-, hknown, -⟩ | ⟨_, hlink, -⟩
    · rw [readOid?_oidText, Option.some.injEq] at hread
      exact ⟨rfl, hread.symm⟩
    · exact absurd rfl hknown
    · cases hkind.symm.trans hlink
  | @inTablespace tablespace database number target hother hdatabase hroot hlink hspace hinner hdir =>
    have htblspc := Path.text_join_ne hdata (by rfl : (Path.mk "pg_tblspc").isAbsolute = false)
    have hdirectory : relationDirectory ⟨tablespace, database, number⟩ version
        = ["pg_tblspc", oidText tablespace, version, oidText database] := by
      simp [relationDirectory, hother]
    rw [hdirectory] at hvisits
    obtain ⟨middle, inner, e₁, e₂, e₃, he₁, hname₁, henter₁, -, -, henter₂, -, -, henter₃⟩ :=
      hvisits.tblspc_inv
    rw [← hname₁] at hlink
    have hkind : e₁.kind = .link := kind_eq_of_listed htblspc he₁ hlink
    have hmiddle : middle.tablespace = tablespace := by
      rcases enter?_cases henter₁ with ⟨_, hdirectory, -⟩ | ⟨hdirectory, -⟩ | ⟨_, -, -, hread, rfl⟩
      · cases hkind.symm.trans hdirectory
      · cases hkind.symm.trans hdirectory
      · rw [readOid?_oidText, Option.some.injEq] at hread
        exact hread.symm
    have htablespace : inner.tablespace = tablespace := by
      rcases enter?_cases henter₂ with ⟨_, -, -, -, rfl⟩ | ⟨-, -, -, rfl⟩ | ⟨_, -, hunknown, -⟩
      · exact hmiddle
      · exact hmiddle
      · rw [hunknown] at hmiddle
        exact absurd hmiddle.symm hother.1
    have hnone : Context.hasSegments ⟨tablespace, noOid⟩ = false := by
      simp [Context.hasSegments, hother.2.2]
    rcases enter?_cases henter₃ with ⟨_, -, -, hread, rfl⟩ | ⟨-, -, -, rfl⟩ | ⟨_, -, hunknown, -⟩
    · rw [readOid?_oidText, Option.some.injEq] at hread
      rw [Context.fileTablespace, htablespace, if_neg hother.1]
      exact ⟨rfl, hread.symm⟩
    · rw [htablespace] at hsegments
      cases hnone.symm.trans hsegments
    · rw [hunknown] at htablespace
      exact absurd htablespace.symm hother.1

end Directories

/-! ## Paths that lead to the file -/

section Reported

variable (hdata : data.text ≠ "") (hversion : ValidName version)

include hdata hversion

/-- A file is in a relation's directory, under a name of one of the relation's segment files, exactly
if the way to it goes by these names. -/
lemma path_eq_iff {r : Relation} {n : FileName} {names : List String} {e : Tree.Entry}
    (hvisits : Visits t data version names context)
    (hlook : lookAt t version (names.foldl Path.join data) context e = .file f) :
    f.path = ((relationDirectory r version).foldl Path.join data).join n.render ↔
      names = relationDirectory r version ∧ e.name.val = n.render := by
  have hnames : ∀ (names : List String) (name : String), (∀ name ∈ names, ValidName name) →
      ValidName name → ∀ name' ∈ names ++ [name], ValidName name' := by
    intro names name hnames hname name' hmem
    rcases List.mem_append.mp hmem with hmem | hmem
    · exact hnames name' hmem
    · rw [List.mem_singleton.mp hmem]
      exact hname
  rw [path_of_lookAt hlook]
  constructor
  · intro hsame
    have hlong : (names ++ [e.name.val]).foldl Path.join data
        = (relationDirectory r version ++ [n.render]).foldl Path.join data := by
      rw [List.foldl_concat, List.foldl_concat]
      exact hsame
    have heq := Path.foldl_join_injective hdata
      (hnames _ _ hvisits.validNames e.name.property)
      (hnames _ _ (validName_of_mem_relationDirectory hversion r) (validName_render n)) hlong
    obtain ⟨hdirectory, hname⟩ := List.append_inj' heq rfl
    exact ⟨hdirectory, List.singleton_inj.mp hname⟩
  · rintro ⟨hdirectory, hname⟩
    rw [hdirectory, hname]

/-- A file that a walk finds and whose reported path leads to it is in the directory where its
relation is housed. -/
lemma housed_of_join_relativePath (hf : f ∈ (Walker.ofDataDirectory version data).segments t)
    (hpath : data.join f.relativePath = f.path) :
    ∃ dir, Housed t data version f.relation dir ∧
      f.path = dir.join (FileName.mk f.relation.number f.fork f.index).render := by
  obtain ⟨names, context, e, hvisits, he, hlook⟩ := exists_visits_of_mem_segments hf
  obtain ⟨htablespace, hdatabase, -, hrelative⟩ := relation_of_lookAt hlook
  rw [hrelative, join_segmentPath_eq hdata hversion] at hpath
  obtain ⟨rfl, -⟩ := (path_eq_iff hdata hversion hvisits hlook).mp hpath.symm
  have hsegments := (lookAt_eq_file.mp hlook).2.2.1
  have hlist := isListable_of_mem_listed he
  exact ⟨_, housed_of_visits hdata hversion hvisits htablespace hdatabase hsegments hlist, hpath.symm⟩

/-- What is found in a relation's directory under a name that is written for a segment file of the
relation is taken for that segment file. -/
lemma eq_of_housed (hf : f ∈ (Walker.ofDataDirectory version data).segments t) {r : Relation}
    {fork : Fork} {index : UInt32} (hhoused : Housed t data version r dir)
    (hpath : f.path = dir.join (FileName.mk r.number fork index).render) :
    f.relation = r ∧ f.fork = fork ∧ f.index = index ∧
      f.relativePath = segmentPath r fork index version := by
  obtain ⟨names, context, e, hvisits, he, hlook⟩ := exists_visits_of_mem_segments hf
  obtain ⟨htablespace, hdatabase, hread, hrelative⟩ := relation_of_lookAt hlook
  rw [hhoused.dir_eq] at hpath
  obtain ⟨rfl, hname⟩ := (path_eq_iff hdata hversion hvisits hlook).mp hpath
  have hsegments := (lookAt_eq_file.mp hlook).2.2.1
  obtain ⟨hfiles, hinside⟩ := context_of_housed hdata hhoused hvisits hsegments
  rw [hname, read?_render, Option.some.injEq, FileName.mk.injEq] at hread
  obtain ⟨hnumber, hfork, hindex⟩ := hread
  have hrelation : f.relation = r := by
    have hparts : f.relation
        = ⟨f.relation.tablespace, f.relation.database, f.relation.number⟩ := rfl
    rw [hparts, htablespace, hfiles, hdatabase, hinside, ← hnumber]
  exact ⟨hrelation, hfork.symm, hindex.symm, by rw [hrelative, hrelation, hfork, hindex]⟩

/-- **Reported paths lead to the files exactly where these are in place.**  A walk over a data
directory finds no file twice.  The path below the data directory that it reports leads to the file
if and only if the file is in the directory where some relation is housed and has the name that is
written for one of the relation's segment files.  If all that is found is in place, the reported
paths are different from each other, and so are those of the pagemaps that a scan yields. -/
theorem reported_paths_lead_to_files :
    (((Walker.ofDataDirectory version data).segments t).map Segment.path).Nodup ∧
    (∀ f ∈ (Walker.ofDataDirectory version data).segments t,
      data.join f.relativePath = f.path ↔
        ∃ r fork index dir, Housed t data version r dir ∧
          f.path = dir.join (FileName.mk r.number fork index).render) ∧
    ((∀ f ∈ (Walker.ofDataDirectory version data).segments t,
        data.join f.relativePath = f.path) →
      (((Walker.ofDataDirectory version data).segments t).map Segment.relativePath).Nodup ∧
      ∀ (m : ChangeMap) (baseline : Lsn), m.valid = true → ∃ pagemaps : List Pagemap,
        ((Scan.ofWalker baseline (.ofDataDirectory version data)).run t m).1 = pagemaps.map .ok ∧
          (pagemaps.map Pagemap.path).Nodup) := by
  refine ⟨nodup_paths hdata t version, fun f hf => ?_, fun hall => ?_⟩
  · constructor
    · intro hpath
      obtain ⟨dir, hhoused, hname⟩ := housed_of_join_relativePath hdata hversion hf hpath
      exact ⟨_, _, _, dir, hhoused, hname⟩
    · rintro ⟨r, fork, index, dir, hhoused, hname⟩
      obtain ⟨-, -, -, hrelative⟩ := eq_of_housed hdata hversion hf hhoused hname
      rw [hrelative, hname, join_segmentPath_eq hdata hversion, hhoused.dir_eq]
  · have hpaths := nodup_relativePaths hdata hall
    refine ⟨hpaths, fun m baseline hvalid => ⟨_, Scan.run_fst (t := t) hvalid rfl, ?_⟩⟩
    exact hpaths.sublist (m.sublist_paths baseline _)

end Reported

/-- A data directory `d` with two files in a database whose names are read as the same numbers. -/
def respelledTree : Tree where
  entries :=
    [([.ofText "d"], .directory true),
      ([.ofText "base", .ofText "d"], .directory true),
      ([.ofText "5", .ofText "base", .ofText "d"], .directory true),
      ([.ofText "016384", .ofText "5", .ofText "base", .ofText "d"],
        .file (.zeros 8192)),
      ([.ofText "16384", .ofText "5", .ofText "base", .ofText "d"],
        .file (.zeros 8192))]
  working := .root
  nodup := by decide

lemma visits_respelledTree : Visits respelledTree ⟨"d"⟩ "v1" ["base", "5"] ⟨noOid, 5⟩ := by
  have hbase : respelledTree.resolve ((Path.mk "d").join "base")
      = .ok (.inTree [⟨"base", by decide⟩, ⟨"d", by decide⟩]) := by decide +kernel
  have hentry : ⟨⟨"5", by decide⟩, .directory⟩ ∈ listed respelledTree ((Path.mk "d").join "base") :=
    mem_listed_iff.mpr ⟨_, .directory true, hbase, by decide +kernel, by decide +kernel, rfl⟩
  have hroot : Visits respelledTree ⟨"d"⟩ "v1" ["base"] .unknown := .root (by decide)
  exact hroot.enter hentry (lookAt_eq_enter.mpr ⟨by decide +kernel, by decide +kernel⟩)

/-- Both files are found. -/
lemma mem_segments_respelledTree (name : Name)
    (hfind : respelledTree.find?
      [name, ⟨"5", by decide⟩, ⟨"base", by decide⟩, ⟨"d", by decide⟩] = some (.file (.zeros 8192)))
    (hread : FileName.read? name.val = some ⟨16384, .main, 0⟩)
    (htemporary : isTemporaryName name.val = false)
    (hthere : respelledTree.entryAt? ((((Path.mk "d").join "base").join "5").join name.val)
      = .ok (.file (.zeros 8192))) :
    { segmentOf "v1" (((Path.mk "d").join "base").join "5") ⟨noOid, 5⟩ ⟨16384, .main, 0⟩ 8192 with
      path := (((Path.mk "d").join "base").join "5").join name.val }
      ∈ (Walker.ofDataDirectory "v1" ⟨"d"⟩).segments respelledTree := by
  have hdatabase : respelledTree.resolve (((Path.mk "d").join "base").join "5")
      = .ok (.inTree [⟨"5", by decide⟩, ⟨"base", by decide⟩, ⟨"d", by decide⟩]) := by
    decide +kernel
  have hentry : ⟨name, .file⟩ ∈ listed respelledTree (((Path.mk "d").join "base").join "5") :=
    mem_listed_iff.mpr ⟨_, .file (.zeros 8192), hdatabase, by decide +kernel, hfind, rfl⟩
  refine visits_respelledTree.mem_segments (by decide) hentry (lookAt_eq_file.mpr ?_)
  exact ⟨htemporary, rfl, by decide, _, _, hread, hthere, rfl⟩

/-- The file whose name is written for its number is reported with a path that leads to it. -/
theorem reported_paths_lead_to_files_respelled :
    ∃ f ∈ (Walker.ofDataDirectory "v1" ⟨"d"⟩).segments respelledTree,
      f.path = ⟨"d/base/5/16384"⟩ ∧ (Path.mk "d").join f.relativePath = f.path := by
  have hdata : (Path.mk "d").text ≠ "" := by decide
  have hf := mem_segments_respelledTree ⟨"16384", by decide⟩ (by decide +kernel) (by decide +kernel)
    (by decide +kernel) (by decide +kernel)
  have hhoused : Housed respelledTree ⟨"d"⟩ "v1" ⟨defaultTablespace, 5, 16384⟩
      (((Path.mk "d").join "base").join (oidText 5)) :=
    .inDefault (by decide) (by decide +kernel) (by decide +kernel)
  refine ⟨_, hf, by decide +kernel, ?_⟩
  exact ((reported_paths_lead_to_files hdata (by decide)).2.1 _ hf).mpr
    ⟨_, .main, 0, _, hhoused, by decide +kernel⟩

/-- Two files that are found are reported with one path, which leads to one of them only. -/
theorem segments_share_path :
    ∃ f ∈ (Walker.ofDataDirectory "v1" ⟨"d"⟩).segments respelledTree,
      ∃ g ∈ (Walker.ofDataDirectory "v1" ⟨"d"⟩).segments respelledTree,
        f.path = ⟨"d/base/5/016384"⟩ ∧ g.path = ⟨"d/base/5/16384"⟩ ∧
        f.relativePath = "base/5/16384" ∧ g.relativePath = "base/5/16384" ∧
        (Path.mk "d").join f.relativePath ≠ f.path := by
  have hf := mem_segments_respelledTree ⟨"016384", by decide⟩ (by decide +kernel) (by decide +kernel)
    (by decide +kernel) (by decide +kernel)
  have hg := mem_segments_respelledTree ⟨"16384", by decide⟩ (by decide +kernel) (by decide +kernel)
    (by decide +kernel) (by decide +kernel)
  refine ⟨_, hf, _, hg, ?_, ?_, ?_, ?_, ?_⟩ <;> decide +kernel

end ChangeTracking
