import ChangeTracking.Proofs.Names
import ChangeTracking.Proofs.Paths

/-!
# What the path of a segment file says

The path of a segment file is written by one function and read by two others, of which each sees only
a part: the last name is read as that of a segment file, and the path up to there is classified as
the directory of a database.  Together they give back all that the path was made from, so no two
segments have one path (`segmentPath_says`).

A directory is classified by the version's name, which the path has to be read with.  To tell paths
apart it is not needed: the names in a path can be told without knowing what they mean
(`relationDirectory_inj`).
-/

namespace ChangeTracking

namespace Path

/-! ## The path up to the last name -/

lemma ofNames_merge (first second : String) (rest : List String) :
    ofNames (first :: second :: rest) = ofNames ((first ++ "/" ++ second) :: rest) := by
  cases rest with
  | nil => simp [ofNames, String.intercalate_cons_cons]
  | cons third rest =>
    refine congrArg Path.mk ?_
    simp only [String.intercalate_cons_cons, String.append_assoc]

section Stations

variable {first last : String} {rest : List String}

lemma stationsFrom_concat (hrest : ∀ name ∈ rest, ValidName name) (hlast : ValidName last)
    (front : String) :
    stationsFrom front (rest ++ [last])
      = stationsFrom front rest ++ [ofNames (front :: (rest ++ [last]))] := by
  induction rest generalizing front with
  | nil => simp [stationsFrom, hlast.ofSegment?, ofNames, String.intercalate_cons_cons]
  | cons second rest ih =>
    have hsecond := hrest second List.mem_cons_self
    have hlater := ih fun name hname => hrest name (List.mem_cons_of_mem second hname)
    simp [stationsFrom, hsecond.ofSegment?, hlater, ofNames_merge]

lemma getLast?_stationsFrom (hrest : ∀ name ∈ rest, ValidName name) (front : String) :
    (⟨front⟩ :: stationsFrom front rest).getLast? = some (ofNames (front :: rest)) := by
  rcases List.eq_nil_or_concat rest with rfl | ⟨before, last, rfl⟩
  · simp [stationsFrom, ofNames]
  · rw [List.concat_eq_append] at hrest ⊢
    have hbefore : ∀ name ∈ before, ValidName name :=
      fun name hname => hrest name (List.mem_append_left _ hname)
    rw [stationsFrom_concat hbefore (hrest last (by simp)), ← List.cons_append,
      List.getLast?_concat]

/-- The path before the last of its names. -/
lemma parent?_ofNames (hnames : ∀ name ∈ first :: (rest ++ [last]), ValidName name) :
    (ofNames (first :: (rest ++ [last]))).parent? = some (ofNames (first :: rest)) := by
  have hrest : ∀ name ∈ rest, ValidName name := fun name hname => hnames name (by simp [hname])
  have hstations : (ofNames (first :: (rest ++ [last]))).stations
      = (⟨first⟩ :: stationsFrom first rest) ++ [ofNames (first :: (rest ++ [last]))] := by
    have hfirst : first ≠ "" := (hnames first List.mem_cons_self).1
    simp only [stations, segments_ofNames hnames, isAbsolute_ofNames hnames, if_neg hfirst,
      stationsFrom_concat hrest (hnames last (by simp)), List.cons_append, Bool.false_eq_true,
      if_false]
  obtain ⟨before, hbefore⟩ := List.getLast?_eq_some_iff.mp (getLast?_stationsFrom hrest first)
  rw [parent?, hstations, hbefore, List.reverse_append, List.reverse_append]
  rfl

end Stations

end Path

/-- The relations that all databases share are in none of them. -/
def Relation.IsPlaced (r : Relation) : Prop :=
  r.tablespace = sharedTablespace → r.database = noOid

instance (r : Relation) : Decidable r.IsPlaced :=
  inferInstanceAs (Decidable (_ → _))

namespace Layout

open Text

variable {r r' : Relation} {version version' : String}

/-! ## Directories of relations -/

lemma oidText_injective {a b : Oid} (h : oidText a = oidText b) : a = b := by
  have hread := readOid?_oidText a
  rw [h, readOid?_oidText] at hread
  exact (Option.some.inj hread).symm

lemma render_injective {n n' : FileName} (h : n.render = n'.render) : n = n' := by
  have hread := read?_render n
  rw [h, read?_render] at hread
  exact (Option.some.inj hread).symm

lemma names_ofNames_relationDirectory (hversion : ValidName version) (r : Relation) :
    (Path.ofNames (relationDirectory r version)).names = relationDirectory r version := by
  have hnames := validName_of_mem_relationDirectory hversion r
  cases hdirectory : relationDirectory r version with
  | nil => rfl
  | cons first rest =>
    rw [hdirectory] at hnames
    exact Path.names_ofNames hnames

/-- The directory of a relation is that of its tablespace and database. -/
lemma databaseAt?_relationDirectory (hversion : ValidName version) (hr : r.IsPlaced) :
    databaseAt? (.ofNames (relationDirectory r version)) version
      = some (r.tablespace, r.database) := by
  rw [databaseAt?, names_ofNames_relationDirectory hversion, relationDirectory]
  by_cases hshared : r.tablespace = sharedTablespace
  · simp [hshared, hr hshared]
  · rw [if_neg hshared]
    by_cases hdefault : r.tablespace = defaultTablespace
    · simp [hdefault, readOid?_oidText]
    · simp [hdefault, readOid?_oidText]

/-- Relations in one directory are in one database, whatever the version's directory is called. -/
lemma relationDirectory_inj (hr : r.IsPlaced) (hr' : r'.IsPlaced)
    (h : relationDirectory r version = relationDirectory r' version') :
    r.tablespace = r'.tablespace ∧ r.database = r'.database := by
  unfold relationDirectory at h
  by_cases hshared : r.tablespace = sharedTablespace
  · by_cases hshared' : r'.tablespace = sharedTablespace
    · exact ⟨hshared.trans hshared'.symm, (hr hshared).trans (hr' hshared').symm⟩
    · rw [if_pos hshared, if_neg hshared'] at h
      split at h <;> simp at h
  · rw [if_neg hshared] at h
    by_cases hshared' : r'.tablespace = sharedTablespace
    · rw [if_pos hshared'] at h
      split at h <;> simp at h
    · rw [if_neg hshared'] at h
      by_cases hdefault : r.tablespace = defaultTablespace
      · by_cases hdefault' : r'.tablespace = defaultTablespace
        · rw [if_pos hdefault, if_pos hdefault'] at h
          simp only [List.cons.injEq, and_true, true_and] at h
          exact ⟨hdefault.trans hdefault'.symm, oidText_injective h⟩
        · rw [if_pos hdefault, if_neg hdefault'] at h
          simp at h
      · rw [if_neg hdefault] at h
        split at h
        · simp at h
        · simp only [List.cons.injEq, and_true, true_and] at h
          exact ⟨oidText_injective h.1, oidText_injective h.2.2⟩

/-! ## Paths of segment files -/

/-- The path of a segment file is its directory and its name. -/
lemma segmentPath_parts (hversion : ValidName version) (r : Relation) (fork : Fork)
    (segment : UInt32) :
    (Path.mk (segmentPath r fork segment version)).parent?
        = some (.ofNames (relationDirectory r version)) ∧
      (Path.mk (segmentPath r fork segment version)).components.getLast?
        = some (.name (FileName.mk r.number fork segment).render) := by
  have hdirectory := validName_of_mem_relationDirectory hversion r
  have hne : relationDirectory r version ≠ [] := by
    unfold relationDirectory
    split
    · simp
    · split <;> simp
  obtain ⟨first, rest, hcons⟩ := List.exists_cons_of_ne_nil hne
  have hpath : Path.mk (segmentPath r fork segment version)
      = .ofNames (first :: (rest ++ [(FileName.mk r.number fork segment).render])) := by
    rw [segmentPath, hcons]
    rfl
  have hnames : ∀ name ∈ first :: (rest ++ [(FileName.mk r.number fork segment).render]),
      ValidName name := by
    intro name hname
    rw [← List.cons_append, ← hcons, List.mem_append, List.mem_singleton] at hname
    rcases hname with hname | rfl
    · exact hdirectory name hname
    · exact validName_render _
  rw [hpath, hcons]
  refine ⟨Path.parent?_ofNames hnames, ?_⟩
  rw [Path.components_ofNames hnames, ← List.cons_append, List.map_append]
  exact List.getLast?_concat

/-- **The path of a segment file says what the file is.**  Its last name is read as the number of the
relation, the fork and the segment, and is not taken for that of a temporary relation's file; the path
before it is classified as the relation's tablespace and database.  So only one segment has a path,
whatever the version's directory is called. -/
theorem segmentPath_says (hversion : ValidName version) (hr : r.IsPlaced) (fork : Fork)
    (segment : UInt32) :
    (∃ directory name,
      (Path.mk (segmentPath r fork segment version)).parent? = some directory ∧
      (Path.mk (segmentPath r fork segment version)).components.getLast? = some (.name name) ∧
      FileName.read? name = some ⟨r.number, fork, segment⟩ ∧ isTemporaryName name = false ∧
      databaseAt? directory version = some (r.tablespace, r.database)) ∧
    ∀ (r' : Relation) fork' segment' version', ValidName version' → r'.IsPlaced →
      segmentPath r' fork' segment' version' = segmentPath r fork segment version →
        r' = r ∧ fork' = fork ∧ segment' = segment := by
  obtain ⟨hparent, hlast⟩ := segmentPath_parts hversion r fork segment
  refine ⟨⟨_, _, hparent, hlast, read?_render _, isTemporaryName_render _,
    databaseAt?_relationDirectory hversion hr⟩, ?_⟩
  intro r' fork' segment' version' hversion' hr' hsame
  obtain ⟨hparent', hlast'⟩ := segmentPath_parts hversion' r' fork' segment'
  rw [hsame] at hparent' hlast'
  have hdirectory : relationDirectory r' version' = relationDirectory r version := by
    have hpaths := Option.some.inj (hparent'.symm.trans hparent)
    have hnames := congrArg Path.names hpaths
    rwa [names_ofNames_relationDirectory hversion', names_ofNames_relationDirectory hversion]
      at hnames
  have hname := Path.Component.name.inj (Option.some.inj (hlast'.symm.trans hlast))
  obtain ⟨hnumber, hfork, hsegment⟩ := FileName.mk.inj (render_injective hname)
  obtain ⟨htablespace, hdatabase⟩ := relationDirectory_inj hr' hr hdirectory
  obtain ⟨tablespace, database, number⟩ := r
  obtain ⟨tablespace', database', number'⟩ := r'
  dsimp only at hnumber htablespace hdatabase
  subst hnumber htablespace hdatabase
  exact ⟨rfl, hfork, hsegment⟩

/-- The third segment of a relation in a tablespace. -/
theorem segmentPath_says_in_tablespace :
    segmentPath ⟨16400, 5, 16384⟩ .main 2 "v1" = "pg_tblspc/16400/v1/5/16384.2" ∧
    (∃ directory name,
      (Path.mk "pg_tblspc/16400/v1/5/16384.2").parent? = some directory ∧
      (Path.mk "pg_tblspc/16400/v1/5/16384.2").components.getLast? = some (.name name) ∧
      FileName.read? name = some ⟨16384, .main, 2⟩ ∧ isTemporaryName name = false ∧
      databaseAt? directory "v1" = some (16400, 5)) ∧
    segmentPath ⟨16400, 5, 16384⟩ .freeSpace 2 "v2" ≠ "pg_tblspc/16400/v1/5/16384.2" := by
  have hpath : segmentPath ⟨16400, 5, 16384⟩ .main 2 "v1" = "pg_tblspc/16400/v1/5/16384.2" := by
    decide +kernel
  have hversion : ValidName "v1" := by decide
  obtain ⟨hparts, honly⟩ := segmentPath_says hversion (r := ⟨16400, 5, 16384⟩) (by decide) .main 2
  rw [hpath] at hparts honly
  refine ⟨hpath, hparts, fun hsame => ?_⟩
  have hfork := (honly ⟨16400, 5, 16384⟩ .freeSpace 2 "v2" (by decide) (by decide) hsame).2.1
  cases hfork

end Layout

end ChangeTracking
