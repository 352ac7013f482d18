import ChangeTracking.Proofs.Listings
import ChangeTracking.Proofs.Walks

/-!
# The way of a walk

What a walk over a data directory finds, it finds in a directory that it has come to by some names,
of which it has made a context (`Visits`).  A step of the way is an entry that was looked at: what
the walk says about a file (`lookAt_eq_file`), and when it goes on and with what context
(`enter?_cases`), depends on the entry and on the context only.

The room that a walk has left bounds its depth but not what it finds, as a path that is too long
cannot be listed (`mem_listing_roomFor`).
-/

namespace ChangeTracking

open Layout Walk

/-! ## Paths of files -/

/-- The path leads on from the directory by one component or more. -/
def Path.IsBelow (p dir : Path) : Prop := ∃ further ≠ [], p.components = dir.components ++ further

namespace Path.IsBelow

variable {p dir : Path} {first second : String}

/-- What is below two directories side by side is below one directory. -/
lemma name_eq (hdir : dir.text ≠ "") (hfirst : ValidName first) (hsecond : ValidName second)
    (h : p.IsBelow (dir.join first)) (h' : p.IsBelow (dir.join second)) : first = second := by
  obtain ⟨further, -, hcomponents⟩ := h
  obtain ⟨further', -, hcomponents'⟩ := h'
  rw [hcomponents, hfirst.components_join hdir, hsecond.components_join hdir] at hcomponents'
  simp only [List.append_assoc, List.singleton_append, List.append_cancel_left_eq,
    List.cons.injEq, Component.name.injEq] at hcomponents'
  exact hcomponents'.1

lemma of_join (hdir : dir.text ≠ "") (hfirst : ValidName first) (h : p.IsBelow (dir.join first)) :
    p.IsBelow dir := by
  obtain ⟨further, -, hcomponents⟩ := h
  refine ⟨.name first :: further, List.cons_ne_nil _ _, ?_⟩
  rw [hcomponents, hfirst.components_join hdir, List.append_assoc]
  rfl

end Path.IsBelow

namespace Path

variable {p : Path} {names names' : List String}

lemma text_foldl_join_ne (hp : p.text ≠ "") (hnames : ∀ name ∈ names, ValidName name) :
    (names.foldl join p).text ≠ "" := by
  induction names generalizing p with
  | nil => exact hp
  | cons first rest ih =>
    have hfirst := hnames first List.mem_cons_self
    exact ih (text_join_ne hp hfirst.isAbsolute) fun name hname =>
      hnames name (List.mem_cons_of_mem first hname)

lemma components_foldl_join (hp : p.text ≠ "") (hnames : ∀ name ∈ names, ValidName name) :
    (names.foldl join p).components = p.components ++ names.map .name := by
  induction names generalizing p with
  | nil => simp
  | cons first rest ih =>
    have hfirst := hnames first List.mem_cons_self
    rw [List.foldl_cons, ih (text_join_ne hp hfirst.isAbsolute) fun name hname =>
      hnames name (List.mem_cons_of_mem first hname), hfirst.components_join hp]
    simp

/-- Names that lead to the same path are the same. -/
lemma foldl_join_injective (hp : p.text ≠ "") (hnames : ∀ name ∈ names, ValidName name)
    (hnames' : ∀ name ∈ names', ValidName name)
    (h : names.foldl join p = names'.foldl join p) : names = names' := by
  have hcomponents := congrArg components h
  rw [components_foldl_join hp hnames, components_foldl_join hp hnames',
    List.append_cancel_left_eq] at hcomponents
  exact List.map_injective_iff.mpr (fun _ _ hname => Component.name.inj hname) hcomponents

end Path

/-! ## Looking at an entry -/

section Entry

variable {t : Tree} {version : String} {dir : Path} {context inner : Context} {f : Segment}
  {e : Tree.Entry}

/-- What it takes for an entry to be a segment file, and what the walk says about it. -/
lemma lookAt_eq_file :
    lookAt t version dir context e = .file f ↔
      isTemporaryName e.name.val = false ∧ e.kind = .file ∧ context.hasSegments = true ∧
        ∃ n node, FileName.read? e.name.val = some n ∧
          t.entryAt? (dir.join e.name.val) = .ok node ∧
          f = { segmentOf version dir context n (Tree.nodeSize node) with
            path := dir.join e.name.val } := by
  unfold lookAt
  dsimp only
  cases htemporary : isTemporaryName e.name.val with
  | true => simp
  | false =>
    by_cases hkind : e.kind = .file
    · cases hsegments : context.hasSegments with
      | false => simp [hkind]
      | true =>
        cases hread : FileName.read? e.name.val with
        | none => simp [hkind]
        | some n =>
          cases hnode : t.entryAt? (dir.join e.name.val) with
          | error error => simp [hkind]
          | ok node => simp [hkind, segmentOf, eq_comm]
    · cases henter : context.enter? version e.name.val e.kind <;> simp [hkind]

/-- What it takes for a walk to go on into an entry. -/
lemma lookAt_eq_enter :
    lookAt t version dir context e = .enter inner ↔
      isTemporaryName e.name.val = false ∧ context.enter? version e.name.val e.kind = some inner := by
  have hfile : context.enter? version e.name.val .file = none := rfl
  unfold lookAt
  dsimp only
  cases htemporary : isTemporaryName e.name.val with
  | true => simp
  | false =>
    by_cases hkind : e.kind = .file
    · cases hsegments : context.hasSegments with
      | false => simp [hkind, hfile]
      | true =>
        cases FileName.read? e.name.val with
        | none => simp [hkind, hfile]
        | some n => cases t.entryAt? (dir.join e.name.val) <;> simp [hkind, hfile]
    · cases henter : context.enter? version e.name.val e.kind <;> simp [hkind]

/-- What the walk does about an entry depends on the tree only for a file, and only on what is there
under its name. -/
lemma lookAt_congr {t' : Tree}
    (h : e.kind = .file → ∀ node, t'.entryAt? (dir.join e.name.val) = .ok node ↔
      t.entryAt? (dir.join e.name.val) = .ok node) :
    lookAt t' version dir context e = lookAt t version dir context e := by
  have hfile (f : Segment) : lookAt t' version dir context e = .file f ↔
      lookAt t version dir context e = .file f := by
    rw [lookAt_eq_file, lookAt_eq_file]
    refine and_congr_right fun _ => and_congr_right fun hkind => ?_
    simp only [h hkind]
  have henter (inner : Context) : lookAt t' version dir context e = .enter inner ↔
      lookAt t version dir context e = .enter inner := by
    rw [lookAt_eq_enter, lookAt_eq_enter]
  cases hlook : lookAt t version dir context e with
  | file f => exact (hfile f).mpr hlook
  | enter inner => exact (henter inner).mpr hlook
  | skip =>
    cases hlook' : lookAt t' version dir context e with
    | skip => rfl
    | file f => cases hlook.symm.trans ((hfile f).mp hlook')
    | enter inner => cases hlook.symm.trans ((henter inner).mp hlook')

lemma path_of_lookAt (h : lookAt t version dir context e = .file f) :
    f.path = dir.join e.name.val := by
  obtain ⟨-, -, -, n, node, -, -, rfl⟩ := lookAt_eq_file.mp h
  rfl

lemma kind_of_lookAt (h : lookAt t version dir context e = .file f) : e.kind = .file :=
  (lookAt_eq_file.mp h).2.1

/-- A file that a walk finds is where its path leads, under a name that can be read. -/
lemma exists_resolve_of_lookAt (hdir : dir.text ≠ "") (he : e ∈ listed t dir)
    (hlook : lookAt t version dir context e = .file f) :
    ∃ around contents n, t.resolve dir = .ok (.inTree around) ∧
      t.find? (e.name :: around) = some (.file contents) ∧
      t.entryAt? f.path = .ok (.file contents) ∧
      t.resolve f.path = .ok (.inTree (e.name :: around)) ∧
      FileName.read? e.name.val = some n := by
  obtain ⟨-, hkind, -, n, node, hread, hentry, rfl⟩ := lookAt_eq_file.mp hlook
  obtain ⟨around, node', hresolve, hthere, hfind, hnode⟩ := mem_listed_iff.mp he
  obtain ⟨-, -, hfind'⟩ := (Tree.entryAt?_join_iff hdir e.name.property hresolve
    (Tree.isDirectory_of_find? hthere)).mp hentry
  obtain rfl : node = node' := Option.some.inj (hfind'.symm.trans hfind)
  rw [hkind] at hnode
  cases node with
  | file contents =>
    exact ⟨around, contents, n, hresolve, hfind, hentry,
      Tree.resolve_join hdir e.name.property hentry (by simp [Node.kind]) hresolve, hread⟩
  | directory readable => cases hnode
  | link target => cases hnode

/-- An entry of a directory that can be listed can be looked up by the path that it was listed by. -/
lemma exists_entryAt?_of_listed (hdir : dir.text ≠ "") (he : e ∈ listed t dir)
    (hlist : t.isListable (dir.join e.name.val) = true) :
    ∃ node, t.entryAt? (dir.join e.name.val) = .ok node ∧ node.kind = e.kind := by
  obtain ⟨around, node, hresolve, -, hfind, hkind⟩ := mem_listed_iff.mp he
  obtain ⟨there, hthere, -⟩ := Tree.isListable_iff.mp hlist
  obtain ⟨around', hresolve', hspot⟩ := Tree.spot_of_resolve_join hdir e.name.property hthere
  obtain rfl := Tree.place_unique hresolve hresolve'
  refine ⟨node, ?_, hkind⟩
  simp [Tree.entryAt?, hspot, hfind, bind, Except.bind, pure, Except.pure]

lemma entryAt?_eq_of_listed (hdir : dir.text ≠ "") (he : e ∈ listed t dir)
    (hlist : t.isListable (dir.join e.name.val) = true) (hkind : e.kind = .directory) :
    t.entryAt? (dir.join e.name.val) = .ok (.directory true) := by
  obtain ⟨node, hentry, hnode⟩ := exists_entryAt?_of_listed hdir he hlist
  obtain ⟨around, hresolve, hspot, hfind⟩ := Tree.entryAt?_join hdir e.name.property hentry
  obtain ⟨there, hthere, hlisted⟩ := Tree.isListable_iff.mp hlist
  rw [hkind] at hnode
  cases node with
  | file contents => cases hnode
  | link target => cases hnode
  | directory readable =>
    have hend := Tree.resolve_of_spot hspot hfind (by simp [Node.kind])
    rw [hthere, Except.ok.injEq] at hend
    rw [hend] at hlisted
    rw [hentry, ← Option.some.inj (hfind.symm.trans hlisted)]

lemma enter?_of_lookAt (h : lookAt t version dir context e = .enter inner) :
    context.enter? version e.name.val e.kind = some inner :=
  (lookAt_eq_enter.mp h).2

/-- A walk goes on into databases, into the version's directory and into tablespaces. -/
lemma enter?_cases {name : String} {kind : Kind}
    (h : context.enter? version name kind = some inner) :
    (∃ database, kind = .directory ∧ context.database = noOid ∧
        readOid? name.toList = some database ∧ inner = ⟨context.tablespace, database⟩) ∨
      (kind = .directory ∧ context.tablespace ≠ noOid ∧ name = version ∧
        inner = ⟨context.tablespace, noOid⟩) ∨
      ∃ tablespace, kind = .link ∧ context = .unknown ∧ readOid? name.toList = some tablespace ∧
        inner = ⟨tablespace, noOid⟩ := by
  unfold Context.enter? at h
  cases kind with
  | file => cases h
  | directory =>
    dsimp only at h
    split at h
    · next database hread =>
      split at h
      · next hdatabase => exact .inl ⟨database, rfl, hdatabase, hread, (Option.some.inj h).symm⟩
      · split at h
        · next hversion => exact .inr (.inl ⟨rfl, hversion.1, hversion.2, (Option.some.inj h).symm⟩)
        · cases h
    · split at h
      · next hversion => exact .inr (.inl ⟨rfl, hversion.1, hversion.2, (Option.some.inj h).symm⟩)
      · cases h
  | link =>
    dsimp only at h
    split at h
    · next hunknown =>
      obtain ⟨tablespace, hread, hinner⟩ := Option.map_eq_some_iff.mp h
      exact .inr (.inr ⟨tablespace, rfl, hunknown, hread, hinner.symm⟩)
    · cases h

/-- In a tablespace a walk goes down into directories only. -/
lemma kind_of_enter? {name : String} {kind : Kind} {inner : Context}
    (htablespace : context.tablespace ≠ noOid)
    (h : context.enter? version name kind = some inner) : kind = .directory := by
  rcases enter?_cases h with ⟨-, hkind, -⟩ | ⟨hkind, -⟩ | ⟨-, -, rfl, -⟩
  · exact hkind
  · exact hkind
  · exact absurd rfl htablespace

end Entry

/-! ## Where a walk finds its files -/

section Listing

variable {t : Tree} {version : String} {dir : Path} {context : Context} {room room' : Nat}
  {f : Segment}

/-- A file in a directory is one of its entries, or is found in a directory that is one. -/
lemma mem_listing_succ :
    f ∈ listing t version (room + 1) dir context ↔ ∃ e ∈ listed t dir,
      lookAt t version dir context e = .file f ∨ ∃ inner,
        lookAt t version dir context e = .enter inner ∧
          f ∈ listing t version room (dir.join e.name.val) inner := by
  rw [listing, List.mem_flatMap]
  refine exists_congr fun e => and_congr_right fun _ => ?_
  unfold segmentsOf
  cases lookAt t version dir context e with
  | skip => simp
  | file segment => simp [eq_comm]
  | enter inner => simp

lemma isListable_of_mem_listing (h : f ∈ listing t version room dir context) :
    t.isListable dir = true := by
  by_contra hlist
  rw [listing_eq_nil (Bool.eq_false_of_not_eq_true hlist)] at h
  exact List.not_mem_nil h

lemma listing_mono (hroom : room ≤ room') (h : f ∈ listing t version room dir context) :
    f ∈ listing t version room' dir context := by
  induction room generalizing room' dir context with
  | zero => exact absurd h List.not_mem_nil
  | succ room ih =>
    obtain ⟨room', rfl⟩ := Nat.exists_eq_add_of_lt hroom
    obtain ⟨e, he, hfile | ⟨inner, henter, hinside⟩⟩ := mem_listing_succ.mp h
    · exact mem_listing_succ.mpr ⟨e, he, .inl hfile⟩
    · exact mem_listing_succ.mpr ⟨e, he, .inr ⟨inner, henter, ih (by omega) hinside⟩⟩

/-- However deep a walk may go, it finds no more than with the room that the directory's path
leaves. -/
lemma mem_listing_roomFor (hdir : dir.text ≠ "") (h : f ∈ listing t version room dir context) :
    f ∈ listing t version (roomFor dir) dir context := by
  induction room generalizing dir context with
  | zero => exact absurd h List.not_mem_nil
  | succ room ih =>
    obtain ⟨left, hleft⟩ := exists_roomFor dir 0
      (Tree.size_lt_of_isListable (isListable_of_mem_listing h))
    rw [hleft]
    obtain ⟨e, he, hfile | ⟨inner, henter, hinside⟩⟩ := mem_listing_succ.mp h
    · exact mem_listing_succ.mpr ⟨e, he, .inl hfile⟩
    · have hname := e.name.property
      have hlonger := Path.size_join_le hdir hname.isAbsolute
      have hpos := hname.size_pos
      have hinner := ih (Path.text_join_ne hdir hname.isAbsolute) hinside
      refine mem_listing_succ.mpr ⟨e, he, .inr ⟨inner, henter, listing_mono ?_ hinner⟩⟩
      unfold roomFor at hleft ⊢
      omega

lemma isBelow_of_mem_listing (hdir : dir.text ≠ "") (h : f ∈ listing t version room dir context) :
    f.path.IsBelow dir := by
  induction room generalizing dir context with
  | zero => exact absurd h List.not_mem_nil
  | succ room ih =>
    obtain ⟨e, -, hfile | ⟨inner, -, hinside⟩⟩ := mem_listing_succ.mp h
    · refine ⟨[.name e.name.val], List.cons_ne_nil _ _, ?_⟩
      rw [path_of_lookAt hfile, e.name.property.components_join hdir]
    · exact (ih (Path.text_join_ne hdir e.name.property.isAbsolute) hinside).of_join hdir
        e.name.property

/-- A walk that starts at a root finds what is listed there. -/
lemma listing_of_root (root : Root) :
    root.listing t version = listing t version (roomFor root.path) root.path root.context := by
  unfold Root.listing
  split
  · rfl
  · next hroot =>
    have hlist : t.isListable root.path = false := by
      by_contra hlist
      exact hroot (Tree.leadsSomewhere_of_isListable (Bool.eq_true_of_not_eq_false hlist))
    exact (listing_eq_nil hlist _).symm

end Listing

/-! ## The directories of a walk -/

/-- The names that a walk over a data directory starts with. -/
def rootNames : List String := ["global", "base", "pg_tblspc"]

/-- What a walk knows about the directories that it starts in. -/
def rootContext (name : String) : Context :=
  if name = "global" then ⟨sharedTablespace, noOid⟩ else .unknown

/-- A walk over a data directory comes to a directory by the given names, and knows this about it. -/
inductive Visits (t : Tree) (data : Path) (version : String) : List String → Context → Prop
  | root {name : String} (hname : name ∈ rootNames) :
      Visits t data version [name] (rootContext name)
  | enter {names : List String} {context inner : Context} {e : Tree.Entry}
      (hdir : Visits t data version names context) (he : e ∈ listed t (names.foldl Path.join data))
      (hlook : lookAt t version (names.foldl Path.join data) context e = .enter inner) :
      Visits t data version (names ++ [e.name.val]) inner

section Visits

variable {t : Tree} {data : Path} {version : String} {names : List String} {context : Context}
  {f : Segment}

lemma validName_of_mem_rootNames : ∀ name ∈ rootNames, ValidName name := by decide

lemma Visits.validNames (h : Visits t data version names context) :
    ∀ name ∈ names, ValidName name := by
  induction h with
  | root hname =>
    intro name hmem
    rw [List.mem_singleton.mp hmem]
    exact validName_of_mem_rootNames _ hname
  | @enter names context inner e _ _ _ ih =>
    intro name hmem
    rcases List.mem_append.mp hmem with hmem | hmem
    · exact ih name hmem
    · rw [List.mem_singleton.mp hmem]
      exact e.name.property

lemma Visits.ne_nil (h : Visits t data version names context) : names ≠ [] := by
  cases h with
  | root => simp
  | enter => simp

lemma Visits.root_inv {name : String} (h : Visits t data version [name] context) :
    name ∈ rootNames ∧ context = rootContext name := by
  generalize hnames : [name] = names at h
  cases h with
  | root hname =>
    obtain rfl := List.singleton_inj.mp hnames
    exact ⟨hname, rfl⟩
  | enter hdir =>
    rw [List.singleton_eq_append_iff] at hnames
    rcases hnames with ⟨hnil, -⟩ | ⟨-, hnil⟩
    · exact absurd hnil hdir.ne_nil
    · cases hnil

/-- The last step to a directory that is not one of those that the walk starts in. -/
lemma Visits.enter_inv {name : String} {inner : Context} (hnames : names ≠ [])
    (h : Visits t data version (names ++ [name]) inner) :
    ∃ context e, Visits t data version names context ∧
      e ∈ listed t (names.foldl Path.join data) ∧ e.name.val = name ∧
        lookAt t version (names.foldl Path.join data) context e = .enter inner := by
  generalize hlong : names ++ [name] = long at h
  cases h with
  | root =>
    rw [List.append_eq_singleton_iff] at hlong
    rcases hlong with ⟨hnil, -⟩ | ⟨-, hnil⟩
    · exact absurd hnil hnames
    · cases hnil
  | @enter names' context _ e hdir he hlook =>
    obtain ⟨rfl, hname⟩ := List.append_inj' hlong rfl
    exact ⟨context, e, hdir, he, (List.singleton_inj.mp hname).symm, hlook⟩

lemma segments_ofDataDirectory (t : Tree) (version : String) (data : Path) :
    (Walker.ofDataDirectory version data).segments t = rootNames.flatMap fun name =>
      listing t version (roomFor (data.join name)) (data.join name) (rootContext name) := by
  have hroots : (Walker.ofDataDirectory version data).segments t = rootNames.flatMap
      fun name => (Root.mk (data.join name) (rootContext name)).listing t version := rfl
  rw [hroots]
  exact List.flatMap_congr fun name _ => listing_of_root _

/-- What a walk over a data directory finds it finds below one of three directories. -/
lemma exists_root_of_mem_segments (hf : f ∈ (Walker.ofDataDirectory version data).segments t) :
    ∃ name ∈ rootNames,
      f ∈ listing t version (roomFor (data.join name)) (data.join name) (rootContext name) := by
  rw [segments_ofDataDirectory] at hf
  exact List.mem_flatMap.mp hf

lemma Visits.exists_of_mem_listing (h : Visits t data version names context) {room : Nat}
    (hf : f ∈ listing t version room (names.foldl Path.join data) context) :
    ∃ names context e, Visits t data version names context ∧
      e ∈ listed t (names.foldl Path.join data) ∧
        lookAt t version (names.foldl Path.join data) context e = .file f := by
  induction room generalizing names context with
  | zero => exact absurd hf List.not_mem_nil
  | succ room ih =>
    obtain ⟨e, he, hfile | ⟨inner, henter, hinside⟩⟩ := mem_listing_succ.mp hf
    · exact ⟨names, context, e, h, he, hfile⟩
    · refine ih (h.enter he henter) ?_
      rwa [List.foldl_concat]

/-- What a walk over a data directory finds is an entry of a directory that it has come to. -/
theorem exists_visits_of_mem_segments
    (hf : f ∈ (Walker.ofDataDirectory version data).segments t) :
    ∃ names context e, Visits t data version names context ∧
      e ∈ listed t (names.foldl Path.join data) ∧
        lookAt t version (names.foldl Path.join data) context e = .file f := by
  obtain ⟨name, hname, hf⟩ := exists_root_of_mem_segments hf
  exact (Visits.root hname).exists_of_mem_listing hf

lemma Visits.mem_segments_of_mem_listing (hdata : data.text ≠ "")
    (h : Visits t data version names context) {room : Nat}
    (hf : f ∈ listing t version room (names.foldl Path.join data) context) :
    f ∈ (Walker.ofDataDirectory version data).segments t := by
  induction h generalizing room with
  | @root name hname =>
    have hvalid := validName_of_mem_rootNames name hname
    rw [segments_ofDataDirectory]
    exact List.mem_flatMap.mpr
      ⟨name, hname, mem_listing_roomFor (Path.text_join_ne hdata hvalid.isAbsolute) hf⟩
  | @enter names context inner e hdir he hlook ih =>
    rw [List.foldl_concat] at hf
    exact ih (mem_listing_succ.mpr ⟨e, he, .inr ⟨inner, hlook, hf⟩⟩)

/-- In every directory that it comes to, a walk over a data directory finds what it takes for a
segment file. -/
theorem Visits.mem_segments (hdata : data.text ≠ "") (h : Visits t data version names context)
    {e : Tree.Entry} (he : e ∈ listed t (names.foldl Path.join data))
    (hlook : lookAt t version (names.foldl Path.join data) context e = .file f) :
    f ∈ (Walker.ofDataDirectory version data).segments t := by
  have hf : f ∈ listing t version 1 (names.foldl Path.join data) context :=
    mem_listing_succ.mpr ⟨e, he, .inl hlook⟩
  exact h.mem_segments_of_mem_listing hdata hf

end Visits

end ChangeTracking
