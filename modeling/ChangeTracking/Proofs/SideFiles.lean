import ChangeTracking.Proofs.MapFiles
import ChangeTracking.Proofs.Visits

/-!
# Files beside a walk

A file that takes its place in a tree takes that of a link or of another file, if anything was there
before.  A walk over a data directory finds the same as before (`segments_eq_of_apart`) if the file is
not one that it finds now, and if no directory that it lists was reached over the link
(`Tree.KeepsWays`).  Where no link was, no way can be cut (`Tree.keepsWays_of_no_link`), and a file
that is not named like a segment file is found by no walk (`resolve_path_ne_of_name`).
-/

namespace ChangeTracking

open Layout Walk

variable {t t' : Tree} {place : Place} {p data : Path} {version : String}

namespace Tree

namespace DiffersAt

variable (h : DiffersAt place t t') (hlink : ∀ target, t.find? place ≠ some (.link target))

include h hlink

lemma resolve {there : Standpoint} (hresolve : t.resolve p = .ok there)
    (hdir : t.isDirectoryAt there = true) : t'.resolve p = .ok there := by
  obtain ⟨here, left, hstart, hwalk⟩ := exists_walk_of_resolve hresolve
  have hstart' : t'.start p = .ok here := by
    rw [start, h.working]
    exact hstart
  exact resolve_of_directory hstart' (h.walk hlink hdir hwalk)
    ((h.isDirectoryAt_eq there).trans hdir)

/-- What can be listed is in the same place in the other tree and can be listed there. -/
lemma findAt? {there : Standpoint} (hresolve : t.resolve p = .ok there)
    (hthere : t.findAt? there = some (.directory true)) :
    t'.resolve p = .ok there ∧ t'.findAt? there = some (.directory true) := by
  cases there with
  | removed around => exact ⟨h.resolve hlink hresolve rfl, rfl⟩
  | inTree dir =>
    have hdir := isDirectory_of_find? hthere
    have hother : dir ≠ place := by
      rintro rfl
      exact absurd (hdir.symm.trans h.not_directory) (by decide)
    exact ⟨h.resolve hlink hresolve hdir, (h.find? dir hother).trans hthere⟩

lemma isListable (hlist : t.isListable p = true) : t'.isListable p = true := by
  obtain ⟨there, hresolve, hthere⟩ := isListable_iff.mp hlist
  exact isListable_iff.mpr ⟨there, h.findAt? hlink hresolve hthere⟩

end DiffersAt

/-- No way is cut by a change of the tree: the path of a file leads where it led, and what a walk
over a data directory lists can be listed still. -/
structure KeepsWays (t t' : Tree) (data : Path) (version : String) (p : Path) : Prop where
  file : ∀ place, t.spot p = .ok (.entry place false) → t'.spot p = .ok (.entry place false)
  directories : ∀ names context, Visits t data version names context →
    t.isListable (names.foldl Path.join data) = true →
      t'.isListable (names.foldl Path.join data) = true

lemma keepsWays_of_no_link (h : DiffersAt place t t')
    (hlink : ∀ target, t.find? place ≠ some (.link target)) : KeepsWays t t' data version p where
  file _ hspot := h.spot hlink hspot
  directories _ _ _ hlist := h.isListable hlink hlist

end Tree

/-! ## Files that no walk finds -/

/-- A file that is not named like a segment file is not one that a walk finds. -/
lemma resolve_path_ne_of_name (hdata : data.text ≠ "") {name : Name} {around : Place}
    (hname : FileName.read? name.val = none) {f : Segment}
    (hf : f ∈ (Walker.ofDataDirectory version data).segments t) :
    t.resolve f.path ≠ .ok (.inTree (name :: around)) := by
  obtain ⟨names, context, e, hvisits, he, hlook⟩ := exists_visits_of_mem_segments hf
  obtain ⟨around', _, n, -, -, -, hresolve, hread⟩ :=
    exists_resolve_of_lookAt (Path.text_foldl_join_ne hdata hvisits.validNames) he hlook
  intro hplace
  rw [hresolve, Except.ok.injEq, Standpoint.inTree.injEq, List.cons.injEq] at hplace
  obtain ⟨rfl, -⟩ := hplace
  rw [hname] at hread
  cases hread

section Apart

variable {contents : Contents} (h : t.DiffersAt place t')
  (hfile : t'.find? place = some (.file contents))

include hfile in
lemma no_link_of_file (target : String) : t'.find? place ≠ some (.link target) := by
  rw [hfile]
  simp

include h

section Entries

variable {dir : Path} {around : Place} (hdir : dir.text ≠ "")
  (hresolve : t.resolve dir = .ok (.inTree around))
  (hresolve' : t'.resolve dir = .ok (.inTree around))
  (hthere : t.find? around = some (.directory true))
  (hthere' : t'.find? around = some (.directory true))

include hresolve hresolve' hthere hthere'

/-- Two listings of a directory differ at most in the entry at the place. -/
lemma filter_listed_eq :
    (listed t' dir).filter (fun e => decide (e.name :: around ≠ place))
      = (listed t dir).filter fun e => decide (e.name :: around ≠ place) := by
  rw [listed_of_resolve hresolve hthere, listed_of_resolve hresolve' hthere']
  refine Tree.filter_sorted_eq fun e he => ?_
  rw [Tree.mem_entriesAt_iff, Tree.mem_entriesAt_iff, h.find? _ (of_decide_eq_true he)]

include hdir

/-- What is there under a name can be looked up in both trees or in neither. -/
lemma entryAt?_iff_of_differsAt {e : Tree.Entry} (hother : e.name :: around ≠ place) {node : Node} :
    t'.entryAt? (dir.join e.name.val) = .ok node ↔ t.entryAt? (dir.join e.name.val) = .ok node := by
  rw [Tree.entryAt?_join_iff hdir e.name.property hresolve (Tree.isDirectory_of_find? hthere),
    Tree.entryAt?_join_iff hdir e.name.property hresolve' (Tree.isDirectory_of_find? hthere'),
    h.find? _ hother]

lemma lookAt_eq_of_differsAt {context : Context} {e : Tree.Entry}
    (hother : e.name :: around ≠ place) :
    lookAt t' version dir context e = lookAt t version dir context e :=
  lookAt_congr fun _ _ =>
    entryAt?_iff_of_differsAt h hdir hresolve hresolve' hthere hthere' hother

omit hdir in
/-- Two flat lists of what the entries stand for are the same if those at the place stand for
nothing. -/
lemma flatMap_listed_eq {g g' : Tree.Entry → List Segment}
    (hsame : ∀ e ∈ listed t dir, e.name :: around ≠ place → g' e = g e)
    (hnew : ∀ e ∈ listed t' dir, e.name :: around = place → g' e = [])
    (hold : ∀ e ∈ listed t dir, e.name :: around = place → g e = []) :
    (listed t' dir).flatMap g' = (listed t dir).flatMap g := by
  have hfilter : ∀ (entries : List Tree.Entry) (g : Tree.Entry → List Segment),
      (∀ e ∈ entries, e.name :: around = place → g e = []) →
      (entries.filter fun e => decide (e.name :: around ≠ place)).flatMap g
        = entries.flatMap g := by
    intro entries g hnothing
    induction entries with
    | nil => rfl
    | cons e rest ih =>
      have hrest := ih fun e he => hnothing e (List.mem_cons_of_mem _ he)
      by_cases hplace : e.name :: around = place
      · rw [List.filter_cons_of_neg (by simp [hplace]), List.flatMap_cons,
          hnothing e List.mem_cons_self hplace, hrest, List.nil_append]
      · rw [List.filter_cons_of_pos (by simp [hplace]), List.flatMap_cons, List.flatMap_cons, hrest]
  have hlisted := filter_listed_eq h hresolve hresolve' hthere hthere'
  rw [← hfilter _ g' hnew, ← hfilter _ g hold, hlisted]
  refine List.flatMap_congr fun e he => ?_
  obtain ⟨he, hother⟩ := List.mem_filter.mp he
  exact hsame e he (of_decide_eq_true hother)

section Place

variable {context : Context} {room : Nat}
  (hapart : ∀ f ∈ listing t' version (room + 1) dir context,
    t'.resolve f.path ≠ .ok (.inTree place))
  {e : Tree.Entry} (hplace : e.name :: around = place)

include hapart hplace

omit h hresolve hthere hthere' in
/-- The file itself is not found. -/
lemma lookAt_ne_file (he : e ∈ listed t' dir) (f : Segment) :
    lookAt t' version dir context e ≠ .file f := by
  intro hlook
  obtain ⟨around', _, _, haround, -, -, hpath, -⟩ := exists_resolve_of_lookAt hdir he hlook
  obtain rfl := Tree.place_unique hresolve' haround
  rw [hplace] at hpath
  exact hapart f (mem_listing_succ.mpr ⟨e, he, .inl hlook⟩) hpath

include hfile

omit h hresolve hthere hthere' in
lemma segmentsOf_eq_nil_of_file {inside : Path → Context → List Segment} (he : e ∈ listed t' dir) :
    segmentsOf t' version inside dir context e = [] := by
  unfold segmentsOf
  cases hlook : lookAt t' version dir context e with
  | skip => rfl
  | file f => exact absurd hlook (lookAt_ne_file hdir hresolve' hapart hplace he f)
  | enter inner =>
    obtain ⟨around', node, haround, -, hfind, hkind⟩ := mem_listed_iff.mp he
    obtain rfl := Tree.place_unique hresolve' haround
    rw [hplace, hfile, Option.some.injEq] at hfind
    have henter := enter?_of_lookAt hlook
    rw [← hkind, ← hfind] at henter
    cases henter

omit h in
/-- What was in the file's place before stands for nothing either, unless it was a link to a
directory that was listed. -/
lemma segmentsOf_eq_nil_of_cut
    (hcut : ∀ inner, lookAt t version dir context e = .enter inner →
      t.isListable (dir.join e.name.val) = false) :
    segmentsOf t version (listing t version room) dir context e = [] := by
  unfold segmentsOf
  cases hlook : lookAt t version dir context e with
  | skip => rfl
  | enter inner => exact listing_eq_nil (hcut inner hlook) room
  | file f =>
    obtain ⟨htemporary, hkind, hsegments, n, node, hread, hentry, -⟩ := lookAt_eq_file.mp hlook
    obtain ⟨hcheck, hsize, -⟩ := (Tree.entryAt?_join_iff hdir e.name.property hresolve
      (Tree.isDirectory_of_find? hthere)).mp hentry
    have hfind : t'.find? (e.name :: around) = some (.file contents) := by
      rw [hplace]
      exact hfile
    have he' : e ∈ listed t' dir :=
      mem_listed_iff.mpr ⟨around, _, hresolve', hthere', hfind, hkind.symm⟩
    have hentry' := (Tree.entryAt?_join_iff hdir e.name.property hresolve'
      (Tree.isDirectory_of_find? hthere')).mpr ⟨hcheck, hsize, hfind⟩
    have hlook' : lookAt t' version dir context e = .file
        { segmentOf version dir context n contents.size with path := dir.join e.name.val } :=
      lookAt_eq_file.mpr ⟨htemporary, hkind, hsegments, n, _, hread, hentry', rfl⟩
    exact absurd hlook' (lookAt_ne_file hdir hresolve' hapart hplace he' _)

end Place

end Entries

include hfile

omit h in
/-- A path to the file does not lead to a directory that can be listed. -/
lemma not_isListable_of_file {dir : Path} {around : Place} {name : Name} (hdir : dir.text ≠ "")
    (hresolve : t'.resolve dir = .ok (.inTree around)) (hplace : name :: around = place) :
    t'.isListable (dir.join name.val) = false := by
  by_contra hlist
  obtain ⟨there, hthere, hfind⟩ := Tree.isListable_iff.mp (Bool.eq_true_of_not_eq_false hlist)
  obtain ⟨around', hresolve', hspot⟩ := Tree.spot_of_resolve_join hdir name.property hthere
  obtain rfl := Tree.place_unique hresolve hresolve'
  rw [← hplace] at hfile
  have hend := Tree.resolve_of_spot hspot hfile (by simp [Node.kind])
  rw [hthere, Except.ok.injEq] at hend
  rw [hend] at hfind
  cases hfile.symm.trans hfind

/-- Below a directory a walk finds the same in both trees, if it does not find the file. -/
lemma listing_eq_of_apart (hdata : data.text ≠ "") (hways : t.KeepsWays t' data version p)
    {names : List String} {context : Context} (hvisits : Visits t data version names context)
    {room : Nat}
    (hapart : ∀ f ∈ listing t' version room (names.foldl Path.join data) context,
      t'.resolve f.path ≠ .ok (.inTree place)) :
    listing t' version room (names.foldl Path.join data) context
      = listing t version room (names.foldl Path.join data) context := by
  have hlink := no_link_of_file hfile
  induction room generalizing names context with
  | zero => rfl
  | succ room ih =>
    have hdir := Path.text_foldl_join_ne hdata hvisits.validNames
    by_cases hlist : t.isListable (names.foldl Path.join data) = true
    · obtain ⟨there, hresolve', hthere'⟩ :=
        Tree.isListable_iff.mp (hways.directories names context hvisits hlist)
      obtain ⟨hresolve, hthere⟩ := h.symm.findAt? hlink hresolve' hthere'
      cases there with
      | removed around =>
        rw [listing, listing, listed_of_removed hresolve, listed_of_removed hresolve']
        rfl
      | inTree around =>
        refine flatMap_listed_eq h hresolve hresolve' hthere hthere' ?_ ?_ ?_
        · intro e he hother
          have hlook : lookAt t' version (names.foldl Path.join data) context e
              = lookAt t version (names.foldl Path.join data) context e :=
            lookAt_eq_of_differsAt h hdir hresolve hresolve' hthere hthere' hother
          have he' : e ∈ listed t' (names.foldl Path.join data) := by
            obtain ⟨around', node, haround, -, hfind, hkind⟩ := mem_listed_iff.mp he
            obtain rfl := Tree.place_unique hresolve haround
            exact mem_listed_iff.mpr
              ⟨_, node, hresolve', hthere', (h.find? _ hother).trans hfind, hkind⟩
          unfold segmentsOf
          rw [hlook]
          cases henter : lookAt t version (names.foldl Path.join data) context e with
          | skip => rfl
          | file f => rfl
          | enter inner =>
            have hinner := ih (hvisits.enter he henter)
            rw [List.foldl_concat] at hinner
            refine hinner fun f hf => hapart f ?_
            exact mem_listing_succ.mpr ⟨e, he', .inr ⟨inner, hlook.trans henter, hf⟩⟩
        · intro e he hplace
          exact segmentsOf_eq_nil_of_file hfile hdir hresolve' hapart hplace he
        · intro e he hplace
          refine segmentsOf_eq_nil_of_cut hfile hdir hresolve hresolve' hthere hthere' hapart hplace
            fun inner henter => ?_
          -- otherwise the way would lead on over the file
          by_contra hinside
          have hlisted := hways.directories _ inner (hvisits.enter he henter) (by
            rw [List.foldl_concat]
            exact Bool.eq_true_of_not_eq_false hinside)
          rw [List.foldl_concat, not_isListable_of_file hfile hdir hresolve' hplace] at hlisted
          cases hlisted
    · have hlist' : t'.isListable (names.foldl Path.join data) = false := by
        by_contra hlist'
        exact hlist (h.symm.isListable hlink (Bool.eq_true_of_not_eq_false hlist'))
      rw [listing_eq_nil hlist', listing_eq_nil (Bool.eq_false_of_not_eq_true hlist)]

/-- A walk over a data directory finds the same in both trees, if it does not find the file. -/
theorem segments_eq_of_apart (hdata : data.text ≠ "") (hways : t.KeepsWays t' data version p)
    (hapart : ∀ f ∈ (Walker.ofDataDirectory version data).segments t',
      t'.resolve f.path ≠ .ok (.inTree place)) :
    (Walker.ofDataDirectory version data).segments t'
      = (Walker.ofDataDirectory version data).segments t := by
  rw [segments_ofDataDirectory] at hapart
  rw [segments_ofDataDirectory, segments_ofDataDirectory]
  refine List.flatMap_congr fun name hname => ?_
  refine listing_eq_of_apart h hfile hdata hways (.root hname) fun f hf => hapart f ?_
  exact List.mem_flatMap.mpr ⟨name, hname, hf⟩

end Apart

end ChangeTracking
