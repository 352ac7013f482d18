import ChangeTracking.Proofs.Components
import ChangeTracking.Proofs.RelativePaths
import ChangeTracking.Proofs.Reports

/-!
# Which names do for a version's directory

Three parts of the program have to do with the name of the version's directory in tablespaces: the
check of the settings, the walk, and the classification of directories that are copied into place.
Each has its own idea of a name that will do.  The check only asks that there is one, without a
slash; the walk asks first whether an entry has the name of a temporary relation's file, then
whether it has a number for its name, and only then whether it is the version's directory; and the
names in a path leave out dots.

So not all that is accepted works (`versionDirectory_works`): the walk finds the files of
tablespaces just with the `Walkable` names, and a directory is classified just with the `Shown`
ones.  A single dot is one of the former but not of the latter.  It leads nowhere, and the databases
that the walk finds then are those right in the tablespace, by a path of the same components
(`entryAt?_join_of_components`).
-/

namespace ChangeTracking

open Layout Walk

/-- The names of directories in a tablespace behind which a walk finds the databases: it does not go
up, passes over what is named like a file of a temporary relation, and takes a number for that of a
database, unless it is zero. -/
structure Walkable (version : String) : Prop where
  not_up : version ≠ ".."
  not_temporary : isTemporaryName version = false
  not_number : ∀ oid, readOid? version.toList = some oid → oid = noOid

/-- The names of directories in a tablespace that a path shows as they are. -/
def Shown (version : String) : Prop := version ≠ "." ∧ version ≠ ".."

instance (version : String) : Decidable (Shown version) := inferInstanceAs (Decidable (_ ∧ _))

lemma walkable_of_readOid?_eq_none {version : String} (hup : version ≠ "..")
    (htemporary : isTemporaryName version = false) (hread : readOid? version.toList = none) :
    Walkable version := by
  refine ⟨hup, htemporary, fun oid h => ?_⟩
  rw [hread] at h
  cases h

/-! ## Accepted names -/

lemma versionDirectory_of_check {c : Config} (h : c.check = .ok ()) :
    c.versionDirectory ≠ "" ∧ '/' ∉ c.versionDirectory.toList := by
  have hgood : Config.goodVersionDirectory c.versionDirectory = true := by
    by_contra hbad
    have hbad := Bool.eq_false_of_not_eq_true hbad
    simp [Config.check, hbad, Tracking.dataDirectory_ne_of_check h] at h
  simpa [Config.goodVersionDirectory] using hgood

/-! ## Dots on the way -/

section Dots

variable {t : Tree} {p q : Path} {name : String} {node : Node}

lemma components_join_dot (hp : p.text ≠ "") : (p.join ".").components = p.components := by
  have hnone : (Path.mk ".").segments.filterMap Path.Component.ofSegment? = [] := by decide
  rw [Path.components_join hp (by rfl), hnone, List.append_nil]

lemma size_lead_le_join_dot (hp : p.text ≠ "") :
    p.lead.utf8ByteSize ≤ (p.join ".").lead.utf8ByteSize := by
  rw [Path.lead_join hp (by rfl) (by decide), String.utf8ByteSize_append]
  omega

lemma size_lead_join_le (hp : p.text ≠ "") (hq : q.text ≠ "") (hname : ValidName name)
    (h : q.lead.utf8ByteSize ≤ p.lead.utf8ByteSize) :
    (q.join name).lead.utf8ByteSize ≤ (p.join name).lead.utf8ByteSize := by
  simp only [Path.lead_join_of_valid hname hp, Path.lead_join_of_valid hname hq,
    String.utf8ByteSize_append]
  omega

/-- What is there under a name is there by a shorter path of the same components as well. -/
lemma entryAt?_join_of_components (hsame : p.components = q.components) (hp : p.text ≠ "")
    (hq : q.text ≠ "") (hname : ValidName name)
    (hshorter : q.lead.utf8ByteSize ≤ p.lead.utf8ByteSize)
    (h : t.entryAt? (p.join name) = .ok node) : t.entryAt? (q.join name) = .ok node := by
  obtain ⟨dir, hresolve, hspot, -⟩ := Tree.entryAt?_join hp hname h
  have hdir : t.isDirectory dir = true := by
    obtain ⟨-, -, directory, _, -, -, hdirectory, -, hplace, -⟩ := Tree.spot_eq_entry.mp hspot
    obtain ⟨dir', rfl, hentry, -⟩ := Tree.placeOf_eq_ok hplace
    obtain ⟨-, rfl⟩ := List.cons.inj hentry
    exact hdirectory
  obtain ⟨hcheck, hfind⟩ := (Tree.entryAt?_join_iff hp hname hresolve hdir).mp h
  have hjoined : (p.join name).components = (q.join name).components := by
    rw [hname.components_join hp, hname.components_join hq, hsame]
  obtain ⟨extra, hsize⟩ : ∃ extra,
      (p.join name).text.utf8ByteSize = (q.join name).text.utf8ByteSize + extra := by
    refine Nat.exists_eq_add_of_le ?_
    rw [Path.text_join_of_valid hname hp, Path.text_join_of_valid hname hq,
      String.utf8ByteSize_append, String.utf8ByteSize_append]
    omega
  have hcheck' := (Tree.checkPath_iff_of_components hjoined
    (Path.text_join_ne hp hname.isAbsolute) (Path.text_join_ne hq hname.isAbsolute) hsize).mp hcheck
  have hresolve' := Tree.resolve_of_components hsame
    (Tree.checkPath_of_join hq hname.isAbsolute hcheck'.1) hresolve hdir
  exact (Tree.entryAt?_join_iff hq hname hresolve' hdir).mpr ⟨hcheck'.1, hfind⟩

lemma text_join_dot_ne (hp : p.text ≠ "") : (p.join ".").text ≠ "" :=
  Path.text_join_ne hp (by rfl)

lemma components_join_dot_join (hp : p.text ≠ "") (hname : ValidName name) :
    ((p.join ".").join name).components = (p.join name).components := by
  rw [hname.components_join (text_join_dot_ne hp), hname.components_join hp,
    components_join_dot hp]

/-- A dot on the way to something can be left out. -/
lemma entryAt?_join_of_dot (hp : p.text ≠ "") (hname : ValidName name)
    (h : t.entryAt? ((p.join ".").join name) = .ok node) : t.entryAt? (p.join name) = .ok node :=
  entryAt?_join_of_components (components_join_dot hp) (text_join_dot_ne hp) hp hname
    (size_lead_le_join_dot hp) h

lemma entryAt?_join_join_of_dot {inner : String} (hp : p.text ≠ "") (hname : ValidName name)
    (hinner : ValidName inner)
    (h : t.entryAt? (((p.join ".").join name).join inner) = .ok node) :
    t.entryAt? ((p.join name).join inner) = .ok node :=
  entryAt?_join_of_components (components_join_dot_join hp hname)
    (Path.text_join_ne (text_join_dot_ne hp) hname.isAbsolute)
    (Path.text_join_ne hp hname.isAbsolute) hinner
    (size_lead_join_le (text_join_dot_ne hp) hp hname (size_lead_le_join_dot hp)) h

end Dots

/-! ## The way of a walk -/

section Found

variable {t : Tree} {data : Path} {version : String} {names : List String} {context : Context}

/-- No directory that a walk comes to has the name of a temporary relation's file. -/
lemma Visits.not_temporary (h : Visits t data version names context) :
    ∀ name ∈ names, isTemporaryName name = false := by
  induction h with
  | root hname =>
    have hall : ∀ name ∈ rootNames, isTemporaryName name = false := by decide
    simpa using hall _ hname
  | enter _ _ hlook ih =>
    intro name hmem
    rcases List.mem_append.mp hmem with hmem | hmem
    · exact ih name hmem
    · rw [List.mem_singleton.mp hmem]
      exact (lookAt_eq_enter.mp hlook).1

/-- A walk goes on into a directory or over a link that it can look up. -/
lemma Visits.enter_of_entryAt? (hdata : data.text ≠ "") (h : Visits t data version names context)
    {name : String} {node : Node} {inner : Context} (hname : ValidName name)
    (hlist : t.isListable (names.foldl Path.join data) = true)
    (hnode : t.entryAt? ((names.foldl Path.join data).join name) = .ok node)
    (htemporary : isTemporaryName name = false)
    (henter : context.enter? version name node.kind = some inner) :
    Visits t data version (names ++ [name]) inner := by
  have hdir := Path.text_foldl_join_ne hdata h.validNames
  have hmem := mem_listed_of_entryAt? hdir hlist hname hnode
  exact h.enter hmem (lookAt_eq_enter.mpr ⟨htemporary, henter⟩)

/-- In a directory that a walk comes to, it finds the files that it can look up. -/
lemma Visits.exists_segment (hdata : data.text ≠ "") (h : Visits t data version names context)
    (hsegments : context.hasSegments = true) {n : FileName} {contents : Contents}
    (hlist : t.isListable (names.foldl Path.join data) = true)
    (hfile : t.entryAt? ((names.foldl Path.join data).join n.render) = .ok (.file contents)) :
    ∃ f ∈ (Walker.ofDataDirectory version data).segments t,
      f.path = (names.foldl Path.join data).join n.render ∧
        f.relation = ⟨context.fileTablespace, context.database, n.number⟩ ∧
        f.fork = n.fork ∧ f.index = n.segment := by
  have hdir := Path.text_foldl_join_ne hdata h.validNames
  have hmem := mem_listed_of_entryAt? hdir hlist (validName_render n) hfile
  have hlook : lookAt t version (names.foldl Path.join data) context
      ⟨⟨n.render, validName_render n⟩, .file⟩
        = .file (segmentOf version (names.foldl Path.join data) context n contents.size) :=
    lookAt_eq_file.mpr
      ⟨isTemporaryName_render n, rfl, hsegments, n, _, read?_render n, hfile, rfl⟩
  exact ⟨_, h.mem_segments hdata hmem hlook, rfl, rfl, rfl, rfl⟩

end Found

section Tablespaces

variable {t : Tree} {data dir : Path} {version : String} {context : Context}
  {tablespace database number : Oid} {n : FileName} {contents : Contents}

/-- In the version's directory a walk knows no more than in the tablespace. -/
lemma Walkable.enter? (h : Walkable version) (htablespace : tablespace ≠ noOid) :
    (Context.mk tablespace noOid).enter? version version .directory = some ⟨tablespace, noOid⟩ := by
  cases hread : readOid? version.toList with
  | none => simp [Context.enter?, hread, htablespace]
  | some oid => simp [Context.enter?, hread, h.not_number oid hread]

/-- A walk comes to a tablespace over its link. -/
lemma visits_tablespace (hdata : data.text ≠ "") (version : String) {target : String}
    (hroot : t.isListable (data.join "pg_tblspc") = true)
    (hlink : t.entryAt? ((data.join "pg_tblspc").join (oidText tablespace)) = .ok (.link target)) :
    Visits t data version ["pg_tblspc", oidText tablespace] ⟨tablespace, noOid⟩ := by
  have hstart : Visits t data version ["pg_tblspc"] .unknown := .root (by decide)
  exact hstart.enter_of_entryAt? hdata (validName_oidText tablespace) hroot hlink
    (isTemporaryName_oidText tablespace) (enter?_tablespace tablespace)

/-- From a directory in which it knows the tablespace only, a walk comes to that of a database and
finds its files. -/
lemma Visits.exists_segment_of_database {names : List String} (hdata : data.text ≠ "")
    (h : Visits t data version names ⟨tablespace, noOid⟩)
    (htablespace : tablespace ≠ noOid) (hdatabase : database ≠ noOid)
    (hlist : t.isListable (names.foldl Path.join data) = true)
    (hdir : t.entryAt? ((names.foldl Path.join data).join (oidText database))
      = .ok (.directory true))
    (hfile : t.entryAt? (((names.foldl Path.join data).join (oidText database)).join n.render)
      = .ok (.file contents)) :
    ∃ f ∈ (Walker.ofDataDirectory version data).segments t,
      f.path = ((names.foldl Path.join data).join (oidText database)).join n.render ∧
        f.relation = ⟨tablespace, database, n.number⟩ ∧ f.fork = n.fork ∧ f.index = n.segment := by
  have hname := validName_oidText database
  have hinside : Visits t data version (names ++ [oidText database]) ⟨tablespace, database⟩ :=
    h.enter_of_entryAt? hdata hname hlist hdir (isTemporaryName_oidText database)
      (enter?_database tablespace database)
  have hconcat : (names ++ [oidText database]).foldl Path.join data
      = (names.foldl Path.join data).join (oidText database) := List.foldl_concat ..
  have hlisted := Tree.isListable_join (Path.text_foldl_join_ne hdata h.validNames) hname hdir
  rw [← hconcat] at hlisted hfile
  have hfound := hinside.exists_segment hdata (by simp [Context.hasSegments, hdatabase]) hlisted
    hfile
  rwa [hconcat, Context.fileTablespace, if_neg htablespace] at hfound

/-- A walk finds the files of a tablespace in the databases behind a directory of such a name. -/
lemma exists_segment_of_walkable (hdata : data.text ≠ "")
    (haccepted : version ≠ "" ∧ '/' ∉ version.toList) (h : Walkable version)
    (hhoused : Housed t data version ⟨tablespace, database, n.number⟩ dir)
    (hother : tablespace ≠ noOid ∧ tablespace ≠ defaultTablespace ∧ tablespace ≠ sharedTablespace)
    (hfile : t.entryAt? (dir.join n.render) = .ok (.file contents)) :
    ∃ f ∈ (Walker.ofDataDirectory version data).segments t,
      f.path.components = (dir.join n.render).components ∧
        f.relation = ⟨tablespace, database, n.number⟩ ∧ f.fork = n.fork ∧ f.index = n.segment := by
  cases hhoused with
  | shared => exact absurd rfl hother.2.2
  | inDefault => exact absurd rfl hother.2.1
  | inTablespace _ hdatabase hroot hlink hspace hinner hdir =>
    have hvisits := visits_tablespace hdata version hroot hlink
    have hspc := Path.text_foldl_join_ne hdata hvisits.validNames
    by_cases hdot : version = "."
    · subst hdot
      -- the dot leads nowhere, so the databases are those right in the tablespace
      have hdb := validName_oidText database
      have hname := validName_render n
      obtain ⟨f, hf, hpath, hidentity⟩ :=
        hvisits.exists_segment_of_database hdata hother.1 hdatabase hspace
          (entryAt?_join_of_dot hspc hdb hdir) (entryAt?_join_join_of_dot hspc hdb hname hfile)
      refine ⟨f, hf, ?_, hidentity⟩
      rw [hpath, hname.components_join (Path.text_join_ne hspc hdb.isAbsolute),
        ← components_join_dot_join hspc hdb]
      have hdotted := Path.text_join_ne (text_join_dot_ne hspc) hdb.isAbsolute
      exact (hname.components_join hdotted).symm
    · have hvalid : ValidName version := ⟨haccepted.1, hdot, h.not_up, haccepted.2⟩
      have hinside := hvisits.enter_of_entryAt? hdata hvalid hspace hinner h.not_temporary
        (h.enter? hother.1)
      have hlist := Tree.isListable_join hspc hvalid hinner
      obtain ⟨f, hf, hpath, hidentity⟩ :=
        hinside.exists_segment_of_database hdata hother.1 hdatabase hlist hdir hfile
      exact ⟨f, hf, congrArg Path.components hpath, hidentity⟩

/-- What a walk has come to by the names of a database's directory in a tablespace: it has taken the
version's directory for no database. -/
lemma Visits.not_number (hdata : data.text ≠ "")
    (h : Visits t data version ["pg_tblspc", oidText tablespace, version, oidText database] context)
    (hdatabase : context.database ≠ noOid) {target : String}
    (hlink : t.entryAt? ((data.join "pg_tblspc").join (oidText tablespace)) = .ok (.link target))
    (hinner : t.entryAt? (((data.join "pg_tblspc").join (oidText tablespace)).join version)
      = .ok (.directory true)) :
    ∀ oid, readOid? version.toList = some oid → oid = noOid := by
  intro oid hread
  by_contra hnumber
  have htblspc := Path.text_join_ne hdata (by rfl : (Path.mk "pg_tblspc").isAbsolute = false)
  have hspc := Path.text_join_ne htblspc (validName_oidText tablespace).isAbsolute
  obtain ⟨middle, inner, e₁, e₂, e₃, he₁, hname₁, henter₁, he₂, hname₂, henter₂, -, -, henter₃⟩ :=
    h.tblspc_inv
  rw [← hname₁] at hlink
  have hkind₁ : e₁.kind = .link := kind_eq_of_listed htblspc he₁ hlink
  rw [← hname₂] at hinner
  have hkind₂ : e₂.kind = .directory := kind_eq_of_listed hspc he₂ hinner
  rw [hkind₁, enter?_tablespace] at henter₁
  obtain rfl := Option.some.inj henter₁
  have hdirectory : (Context.mk tablespace noOid).enter? version version .directory
      = some ⟨tablespace, oid⟩ := by
    simp [Context.enter?, hread]
  rw [hkind₂, hdirectory] at henter₂
  obtain rfl := Option.some.inj henter₂
  -- in what is taken for a database there is no other one
  rcases enter?_cases henter₃ with ⟨_, -, hnone, -⟩ | ⟨-, -, -, rfl⟩ | ⟨_, -, -, -, rfl⟩
  · exact hnumber hnone
  · exact hdatabase rfl
  · exact hdatabase rfl

/-- The components of the path of a file in a tablespace, whatever those of the version's directory
are. -/
lemma components_tablespaceFile (hdata : data.text ≠ "") (hplain : '/' ∉ version.toList) :
    (((((data.join "pg_tblspc").join (oidText tablespace)).join version).join
        (oidText database)).join n.render).components
      = data.components ++ ([.name "pg_tblspc", .name (oidText tablespace)]
          ++ (Path.mk version).segments.filterMap Path.Component.ofSegment?
          ++ [.name (oidText database), .name n.render]) := by
  have htblspcName : ValidName "pg_tblspc" := by decide
  have habsolute := Path.isAbsolute_of_notMem hplain
  have htblspc := Path.text_join_ne hdata htblspcName.isAbsolute
  have hspc := Path.text_join_ne htblspc (validName_oidText tablespace).isAbsolute
  have hver := Path.text_join_ne hspc habsolute
  have hdb := Path.text_join_ne hver (validName_oidText database).isAbsolute
  rw [(validName_render n).components_join hdb, (validName_oidText database).components_join hver,
    Path.components_join hspc habsolute, (validName_oidText tablespace).components_join htblspc,
    htblspcName.components_join hdata]
  simp only [List.append_assoc, List.cons_append, List.nil_append]

/-- Where the files of a tablespace are found by their path, a walk has taken the name for that of a
version's directory. -/
lemma walkable_of_found (hdata : data.text ≠ "")
    (haccepted : version ≠ "" ∧ '/' ∉ version.toList)
    (hhoused : Housed t data version ⟨tablespace, database, number⟩ dir)
    (hother : tablespace ≠ noOid ∧ tablespace ≠ defaultTablespace ∧ tablespace ≠ sharedTablespace)
    {f : Segment} (hf : f ∈ (Walker.ofDataDirectory version data).segments t)
    (hpath : f.path.components = (dir.join n.render).components)
    (hdatabase : f.relation.database = database) : Walkable version := by
  obtain ⟨names, context, e, hvisits, he, hlook⟩ := exists_visits_of_mem_segments hf
  have hvalid := hvisits.validNames
  rw [path_of_lookAt hlook, e.name.property.components_join
    (Path.text_foldl_join_ne hdata hvalid), Path.components_foldl_join hdata hvalid] at hpath
  cases hhoused with
  | shared => exact absurd rfl hother.2.2
  | inDefault => exact absurd rfl hother.2.1
  | inTablespace _ hinside hroot hlink hspace hinner hdir =>
    rw [components_tablespaceFile hdata haccepted.2, List.append_assoc,
      List.append_cancel_left_eq] at hpath
    by_cases hup : version = ".."
    · subst hup
      -- a walk never goes up
      have hsegments : (Path.mk "..").segments.filterMap Path.Component.ofSegment? = [.up] := by
        decide
      have hmem : Path.Component.up ∈ names.map .name ++ [.name e.name.val] := by
        rw [hpath, hsegments]
        simp
      simp at hmem
    · by_cases hdot : version = "."
      · subst hdot
        exact walkable_of_readOid?_eq_none (by decide) (by decide) (by decide)
      · have hversion : ValidName version := ⟨haccepted.1, hdot, hup, haccepted.2⟩
        rw [hversion.segments] at hpath
        have hlong : (names ++ [e.name.val]).map Path.Component.name
            = (["pg_tblspc", oidText tablespace, version, oidText database] ++ [n.render]).map
              .name := by
          simpa [hversion.ofSegment?] using hpath
        have hsame := List.map_injective_iff.mpr
          (fun _ _ hname => Path.Component.name.inj hname) hlong
        obtain ⟨rfl, -⟩ := List.append_inj' hsame rfl
        have hknown : context.database ≠ noOid := by
          rwa [← (relation_of_lookAt hlook).2.1, hdatabase]
        exact ⟨hup, hvisits.not_temporary version (by simp),
          hvisits.not_number hdata hknown hlink hinner⟩

end Tablespaces

/-! ## Paths of databases -/

/-- A name that is not shown is missing among the names of a path. -/
lemma names_of_not_shown {version : String} (hhidden : ¬Shown version)
    (tablespace database : Oid) :
    (Path.ofNames ["pg_tblspc", oidText tablespace, version, oidText database]).names
      = ["pg_tblspc", oidText tablespace, oidText database] := by
  have hspc := validName_oidText tablespace
  have hdb := validName_oidText database
  have hdots : version = "." ∨ version = ".." := by
    simpa only [Shown, not_and_or, not_not] using hhidden
  have hslash : '/' ∉ version.toList := by
    rcases hdots with rfl | rfl <;> decide
  have hnames : ∀ name ∈ ["pg_tblspc", oidText tablespace, version, oidText database],
      '/' ∉ name.toList := by
    simp only [List.forall_mem_cons]
    exact ⟨by decide, hspc.2.2.2, hslash, hdb.2.2.2, by simp⟩
  have hfirst : Path.Component.ofSegment? "pg_tblspc" = some (.name "pg_tblspc") := by decide
  have hdot : Path.Component.ofSegment? "." = none := by decide
  have hup : Path.Component.ofSegment? ".." = some .up := by decide
  rw [Path.names_eq_moves, Path.moves, Path.segments_ofNames_of_notMem hnames]
  rcases hdots with rfl | rfl
  · simp only [List.filterMap_cons, hfirst, hspc.ofSegment?, hdot, hdb.ofSegment?,
      List.filterMap_nil]
  · simp only [List.filterMap_cons, hfirst, hspc.ofSegment?, hup, hdb.ofSegment?,
      List.filterMap_nil]

/-- The directory of a database in a tablespace is classified as that, unless the version's name is
one that a path does not show. -/
lemma databaseAt?_eq_some_iff {version : String} (haccepted : version ≠ "" ∧ '/' ∉ version.toList)
    (tablespace database : Oid) :
    databaseAt? (.ofNames ["pg_tblspc", oidText tablespace, version, oidText database]) version
      = some (tablespace, database) ↔ Shown version := by
  constructor
  · intro h
    by_contra hhidden
    rw [databaseAt?, names_of_not_shown hhidden] at h
    cases h
  · intro hshown
    have hversion : ValidName version := ⟨haccepted.1, hshown.1, hshown.2, haccepted.2⟩
    have hnames : ∀ name ∈ ["pg_tblspc", oidText tablespace, version, oidText database],
        ValidName name := by
      simp only [List.forall_mem_cons]
      exact ⟨by decide, validName_oidText tablespace, hversion, validName_oidText database, by simp⟩
    rw [databaseAt?, Path.names_ofNames hnames]
    simp [readOid?_oidText]

/-- **Which version directories work.**  Of the settings that are accepted, just those with a
`Shown` name let the directory of a database in a tablespace be classified when it is copied into
place, and just those with a `Walkable` one let a walk find a file there.  What a walk finds it
finds by the path of the file, dots apart, and takes it for what it is. -/
theorem versionDirectory_works {c : Config} (hcheck : c.check = .ok ())
    {tablespace database : Oid}
    (hother : tablespace ≠ noOid ∧ tablespace ≠ defaultTablespace ∧ tablespace ≠ sharedTablespace) :
    (databaseAt? (.ofNames
        ["pg_tblspc", oidText tablespace, c.versionDirectory, oidText database]) c.versionDirectory
      = some (tablespace, database) ↔ Shown c.versionDirectory) ∧
    ∀ (t : Tree) (n : FileName) (dir : Path) (contents : Contents),
      Housed t c.dataDirectory c.versionDirectory ⟨tablespace, database, n.number⟩ dir →
      t.entryAt? (dir.join n.render) = .ok (.file contents) →
      ((∃ f ∈ (Walker.ofDataDirectory c.versionDirectory c.dataDirectory).segments t,
          f.path.components = (dir.join n.render).components ∧
            f.relation = ⟨tablespace, database, n.number⟩ ∧ f.fork = n.fork ∧
            f.index = n.segment) ↔ Walkable c.versionDirectory) := by
  have hdata := Tracking.dataDirectory_ne_of_check hcheck
  have haccepted := versionDirectory_of_check hcheck
  refine ⟨databaseAt?_eq_some_iff haccepted tablespace database,
    fun t n dir contents hhoused hfile => ⟨?_, fun h => ?_⟩⟩
  · rintro ⟨f, hf, hpath, hrelation, -⟩
    exact walkable_of_found hdata haccepted hhoused hother hf hpath
      (congrArg Relation.database hrelation)
  · exact exists_segment_of_walkable hdata haccepted h hhoused hother hfile

/-- With an ordinary name a file in a tablespace is found, and its directory is classified. -/
theorem versionDirectory_works_ordinary :
    (Config.mk ⟨"d"⟩ 8 "v1" none).check = .ok () ∧
    databaseAt? ⟨"pg_tblspc/16500/v1/5"⟩ "v1" = some (16500, 5) ∧
    Tracking.linkedTree.entryAt? ⟨"d/pg_tblspc/16500/v1/5/16384"⟩ = .ok (.file (.zeros 0)) ∧
    ∃ f ∈ (Walker.ofDataDirectory "v1" ⟨"d"⟩).segments Tracking.linkedTree,
      f.path.components = (Path.mk "d/pg_tblspc/16500/v1/5/16384").components ∧
        f.relation = ⟨16500, 5, 16384⟩ ∧ f.fork = .main ∧ f.index = 0 := by
  have hcheck : (Config.mk ⟨"d"⟩ 8 "v1" none).check = .ok () := rfl
  have hother : (16500 : Oid) ≠ noOid ∧ (16500 : Oid) ≠ defaultTablespace ∧
      (16500 : Oid) ≠ sharedTablespace := by
    decide
  obtain ⟨hclassified, hfound⟩ := @versionDirectory_works _ hcheck 16500 5 hother
  have hfile : Tracking.linkedTree.entryAt? ⟨"d/pg_tblspc/16500/v1/5/16384"⟩
      = .ok (.file (.zeros 0)) := by
    decide +kernel
  have hwalkable : Walkable "v1" :=
    walkable_of_readOid?_eq_none (by decide) (by decide) (by decide)
  refine ⟨hcheck, hclassified.mpr (by decide), hfile, ?_⟩
  have hpath : ((((((Path.mk "d").join "pg_tblspc").join (oidText 16500)).join "v1").join
      (oidText 5)).join (FileName.mk 16384 .main 0).render)
        = ⟨"d/pg_tblspc/16500/v1/5/16384"⟩ := by
    decide +kernel
  have hiff := hfound Tracking.linkedTree ⟨16384, .main, 0⟩ _ (.zeros 0)
    Tracking.housed_linkedTree (hpath ▸ hfile)
  rw [hpath] at hiff
  exact hiff.mpr hwalkable

/-- A data directory `d` with a relation in a tablespace, where the version's directory is named by
a number. -/
def numberedTree : Tree where
  entries :=
    [([.ofText "d"], .directory true),
      ([.ofText "pg_tblspc", .ofText "d"], .directory true),
      ([.ofText "16400", .ofText "pg_tblspc", .ofText "d"], .link "../../t"),
      ([.ofText "t"], .directory true),
      ([.ofText "16", .ofText "t"], .directory true),
      ([.ofText "5", .ofText "16", .ofText "t"], .directory true),
      ([.ofText "16384", .ofText "5", .ofText "16", .ofText "t"], .file (.zeros 8192))]
  working := .root
  nodup := by decide

lemma housed_numberedTree :
    Housed numberedTree ⟨"d"⟩ "16" ⟨16400, 5, 16384⟩
      (((((Path.mk "d").join "pg_tblspc").join (oidText 16400)).join "16").join (oidText 5)) := by
  have hlink : numberedTree.entryAt? (((Path.mk "d").join "pg_tblspc").join (oidText 16400))
      = .ok (.link "../../t") := by decide +kernel
  refine .inTablespace (by decide) (by decide) ?_ hlink ?_ ?_ ?_ <;> decide +kernel

/-- Two names that are accepted: by the one a walk does not find the file of a tablespace that it
leads to, and by the other a directory is not classified. -/
theorem versionDirectory_unnoticed :
    (Config.mk ⟨"d"⟩ 8 "16" none).check = .ok () ∧
    numberedTree.entryAt? ⟨"d/pg_tblspc/16400"⟩ = .ok (.link "../../t") ∧
    numberedTree.entryAt? ⟨"d/pg_tblspc/16400/16/5/16384"⟩ = .ok (.file (.zeros 8192)) ∧
    (¬∃ f ∈ (Walker.ofDataDirectory "16" ⟨"d"⟩).segments numberedTree,
      f.path.components = (Path.mk "d/pg_tblspc/16400/16/5/16384").components ∧
        f.relation = ⟨16400, 5, 16384⟩) ∧
    (Config.mk ⟨"d"⟩ 8 "." none).check = .ok () ∧
    databaseAt? ⟨"pg_tblspc/16400/./5"⟩ "." = none := by
  have hdata : (Path.mk "d").text ≠ "" := by decide
  have haccepted : "16" ≠ "" ∧ '/' ∉ "16".toList := by decide
  have hpath : ((((((Path.mk "d").join "pg_tblspc").join (oidText 16400)).join "16").join
      (oidText 5)).join (FileName.mk 16384 .main 0).render)
        = ⟨"d/pg_tblspc/16400/16/5/16384"⟩ := by
    decide +kernel
  refine ⟨rfl, by decide +kernel, by decide +kernel, ?_, rfl, by decide +kernel⟩
  rintro ⟨f, hf, hcomponents, hrelation⟩
  rw [← hpath] at hcomponents
  have hwalkable := walkable_of_found hdata haccepted housed_numberedTree (by decide) hf
    hcomponents (congrArg Relation.database hrelation)
  have hread : readOid? "16".toList = some 16 := by decide
  exact absurd (hwalkable.not_number 16 hread) (by decide)

end ChangeTracking
