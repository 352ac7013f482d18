import ChangeTracking.Proofs.BulkMarks
import ChangeTracking.Proofs.ByteOrder
import ChangeTracking.Proofs.DamagedTrees
import ChangeTracking.Proofs.WalkLoop

/-!
# Walks over damaged trees

When what is at a place is missing, or a directory cannot be read any more, a walk finds what it found
before, in the same order, but for what is below there: files that the walk came to over places that
were lost, and files that it found in a directory that cannot be listed now or further down from one
(`Find.isBelow`).

The walk is followed as the recursion of `course`.  A directory that is lost contributes nothing after
the damage, and all that it contributed before is below it (`found_of_leadsOver`); so does one that
cannot be listed, since it is one of the directories that the find is within
(`within_suffix`).  Every other directory keeps its entries but for those that were lost
(`Tree.Loses.listed_eq`).
-/

namespace ChangeTracking

namespace Walk

variable {t t' : Tree} {version : String} {lost shut : Place → Bool}

/-! ## What is found -/

/-- What a walk finds at an entry. -/
def foundAt (t : Tree) (version : String) (room : Nat) (within : List Path) (dir : Path)
    (context : Context) (e : Tree.Entry) : List Find :=
  (actsAt t version (course t version room) within dir context e).filterMap Act.found?

/-- What a walk finds in and below a directory. -/
def found (t : Tree) (version : String) (room : Nat) (within : List Path) (dir : Path)
    (context : Context) : List Find :=
  (course t version room within dir context).filterMap Act.found?

section Found

variable {room : Nat} {within : List Path} {dir : Path} {context : Context} {x : Find}

@[simp] lemma found_zero : found t version 0 within dir context = [] := rfl

lemma found_succ : found t version (room + 1) within dir context
    = (listed t dir).flatMap (foundAt t version room within dir context) := by
  rw [found, course, List.filterMap_flatMap]
  rfl

lemma foundAt_eq (e : Tree.Entry) : foundAt t version room within dir context e =
    match lookAt t version dir context e with
    | .skip => []
    | .file f => [⟨f, dir :: within⟩]
    | .enter inner => found t version room (dir :: within) (dir.join e.name.val) inner := by
  rw [foundAt, actsAt]
  cases lookAt t version dir context e <;> rfl

lemma found_eq_nil (h : listed t dir = []) : found t version room within dir context = [] := by
  rw [found, course_eq_nil h, List.filterMap_nil]

lemma found_root (t : Tree) (version : String) (r : Root) :
    (r.course t version).filterMap Act.found?
      = found t version (roomFor r.path) [] r.path r.context := by
  unfold Root.course
  split
  · rfl
  · next hleads =>
    refine (found_eq_nil (listed_eq_nil_of_not_isListable ?_)).symm
    by_contra hlist
    exact hleads (Tree.leadsSomewhere_of_isListable (Bool.eq_true_of_not_eq_false hlist))

/-- What is found at an entry is the file that it is, or is found in the directory that it is. -/
lemma mem_foundAt {e : Tree.Entry} (h : x ∈ foundAt t version room within dir context e) :
    (∃ f, lookAt t version dir context e = .file f ∧ x = ⟨f, dir :: within⟩) ∨
      ∃ inner, lookAt t version dir context e = .enter inner ∧
        x ∈ found t version room (dir :: within) (dir.join e.name.val) inner := by
  rw [foundAt_eq] at h
  cases hlook : lookAt t version dir context e with
  | skip => simp [hlook] at h
  | file f => exact .inl ⟨f, rfl, by simpa [hlook] using h⟩
  | enter inner => exact .inr ⟨inner, rfl, by simpa [hlook] using h⟩

/-- What is found in a directory is found within it and within what it is in. -/
lemma within_suffix (h : x ∈ found t version room within dir context) :
    (dir :: within) <:+ x.within := by
  induction room generalizing within dir context with
  | zero => simp at h
  | succ room ih =>
    rw [found_succ] at h
    obtain ⟨e, -, he⟩ := List.mem_flatMap.mp h
    rcases mem_foundAt he with ⟨f, -, rfl⟩ | ⟨inner, -, hinside⟩
    · exact List.suffix_rfl
    · exact (List.suffix_cons _ _).trans (ih hinside)

/-- What is found in a directory over some places is found over them. -/
lemma leadsOver_of_found (hover : t.leadsOver lost dir = true)
    (h : x ∈ found t version room within dir context) :
    t.leadsOver lost x.segment.path = true := by
  induction room generalizing within dir context with
  | zero => simp at h
  | succ room ih =>
    rw [found_succ] at h
    obtain ⟨e, he, hfound⟩ := List.mem_flatMap.mp h
    have hjoin : t.leadsOver lost (dir.join e.name.val) = true :=
      Tree.leadsOver_join_of_leadsOver (text_ne_of_mem_listed he) hover
    rcases mem_foundAt hfound with ⟨f, hlook, rfl⟩ | ⟨inner, -, hinside⟩
    · exact (path_of_lookAt hlook).symm ▸ hjoin
    · exact ih hjoin hinside

end Found

/-! ## Damage to the tree -/

/-- Whether a find is below what was lost, or in or below a directory that cannot be listed. -/
def Find.isBelow (t : Tree) (lost shut : Place → Bool) (x : Find) : Bool :=
  t.leadsOver lost x.segment.path || x.within.any (t.leadsTo shut)

lemma flatMap_filter_eq {α β : Type} {l : List α} {keep : α → Bool} {f g : α → List β}
    (hkept : ∀ a ∈ l, keep a = true → f a = g a) (hother : ∀ a ∈ l, keep a = false → g a = []) :
    (l.filter keep).flatMap f = l.flatMap g := by
  induction l with
  | nil => rfl
  | cons a rest ih =>
    have hrest := ih (fun b hb => hkept b (List.mem_cons_of_mem a hb))
      fun b hb => hother b (List.mem_cons_of_mem a hb)
    rw [List.flatMap_cons]
    cases hkeep : keep a with
    | true =>
      rw [List.filter_cons_of_pos hkeep, List.flatMap_cons, hrest, hkept a List.mem_cons_self hkeep]
    | false =>
      rw [List.filter_cons_of_neg (Bool.eq_false_iff.mp hkeep), hrest,
        hother a List.mem_cons_self hkeep, List.nil_append]

section Entry

variable {room : Nat} {within : List Path} {dir : Path} {context : Context} {x : Find}
  {e : Tree.Entry} (he : e ∈ listed t dir)

include he

lemma size_le_of_entryAt? {node : Node} (hnode : t.entryAt? (dir.join e.name.val) = .ok node) :
    e.name.val.utf8ByteSize ≤ Tree.nameLimit := by
  obtain ⟨place, -, hresolve, hfind, -⟩ := mem_listed_iff.mp he
  exact ((Tree.entryAt?_join_iff (text_ne_of_mem_listed he) e.name.property hresolve
    (Tree.isDirectory_of_find? hfind)).mp hnode).2.1

variable {place : Place} (hresolve : t.resolve dir = .ok (.inTree place))
  (hfind : t.find? place = some (.directory true))

include hresolve hfind

/-- What is found at an entry that was lost is below what was lost. -/
lemma leadsOver_of_foundAt (hlost : lost (e.name :: place) = true)
    (h : x ∈ foundAt t version room within dir context e) :
    t.leadsOver lost x.segment.path = true := by
  have hdir := text_ne_of_mem_listed he
  have hjoin {node : Node} (hnode : t.entryAt? (dir.join e.name.val) = .ok node) :
      t.leadsOver lost (dir.join e.name.val) = true :=
    Tree.leadsOver_join_of_mem hdir hresolve (Tree.isDirectory_of_find? hfind)
      (size_le_of_entryAt? he hnode) hlost
  rcases mem_foundAt h with ⟨f, hlook, rfl⟩ | ⟨inner, -, hinside⟩
  · obtain ⟨-, contents, -, -, -, hentry, -⟩ := exists_resolve_of_lookAt hdir he hlook
    rw [path_of_lookAt hlook] at hentry ⊢
    exact hjoin hentry
  · have hlist : t.isListable (dir.join e.name.val) = true := by
      by_contra hlist
      rw [found_eq_nil (listed_eq_nil_of_not_isListable (Bool.eq_false_of_not_eq_true hlist))]
        at hinside
      exact List.not_mem_nil hinside
    obtain ⟨node, hnode, -⟩ := exists_entryAt?_of_listed hdir he hlist
    exact leadsOver_of_found (hjoin hnode) hinside

/-- The path of a file that was not lost leads over nothing that was. -/
lemma leadsOver_of_lookAt {f : Segment} (hlook : lookAt t version dir context e = .file f)
    (hover : t.leadsOver lost dir = false) (hkept : lost (e.name :: place) = false) :
    t.leadsOver lost f.path = false := by
  have hdir := text_ne_of_mem_listed he
  obtain ⟨place', contents, -, hresolve', hfile, hentry, -⟩ := exists_resolve_of_lookAt hdir he hlook
  obtain rfl := Tree.place_unique hresolve hresolve'
  rw [path_of_lookAt hlook] at hentry ⊢
  rw [Tree.leadsOver_join_eq hdir hresolve (Tree.isDirectory_of_find? hfind)
    (size_le_of_entryAt? he hentry) hfile (by simp [Node.kind]), hover, hkept, Bool.false_or]

end Entry

section Damage

variable {room : Nat} {within : List Path} {dir : Path} {context : Context}
  (h : t.Loses lost shut t')

include h

/-- A directory in the tree after the damage, as it was before and as it can be listed now. -/
lemma found_eq_of_open {place : Place} (hover : t.leadsOver lost dir = false)
    (hresolve : t.resolve dir = .ok (.inTree place))
    (hfind : t.find? place = some (.directory true)) (hshut : shut place = false)
    (hopen : ∀ d ∈ within, t.leadsTo shut d = false)
    (ih : ∀ (within : List Path) (dir : Path) (context : Context),
      (∀ d ∈ within, t.leadsTo shut d = false) →
        found t' version room within dir context
          = (found t version room within dir context).filter fun x => !x.isBelow t lost shut) :
    found t' version (room + 1) within dir context
      = (found t version (room + 1) within dir context).filter fun x =>
          !x.isBelow t lost shut := by
  have hopen' : ∀ d ∈ dir :: within, t.leadsTo shut d = false := by
    intro d hd
    rcases List.mem_cons.mp hd with rfl | hd
    · rw [Tree.leadsTo, hresolve]
      exact hshut
    · exact hopen d hd
  rw [found_succ, found_succ, List.filter_flatMap, h.listed_eq hover hresolve hfind hshut]
  refine flatMap_filter_eq (fun e he hkept => ?_) fun e he hlost => ?_
  · rw [Bool.not_eq_true'] at hkept
    have hdir := text_ne_of_mem_listed he
    rw [foundAt_eq, foundAt_eq, h.lookAt_eq hover hresolve hfind hshut hdir he hkept]
    cases hlook : lookAt t version dir context e with
    | skip => rfl
    | enter inner => exact ih _ _ inner hopen'
    | file f =>
      have hkeep : Find.isBelow t lost shut ⟨f, dir :: within⟩ = false := by
        rw [Find.isBelow, leadsOver_of_lookAt he hresolve hfind hlook hover hkept, Bool.false_or,
          List.any_eq_false]
        exact fun d hd => Bool.eq_false_iff.mp (hopen' d hd)
      simp [hkeep]
  · rw [Bool.not_eq_false'] at hlost
    refine List.filter_eq_nil_iff.mpr fun x hx => ?_
    rw [Find.isBelow, leadsOver_of_foundAt he hresolve hfind hlost hx]
    simp

omit h in
/-- Where all is below what was lost, nothing is to be found any more. -/
lemma found_eq_of_isBelow (hlist : t'.isListable dir = false)
    (hbelow : ∀ x ∈ found t version room within dir context, x.isBelow t lost shut = true) :
    found t' version room within dir context
      = (found t version room within dir context).filter fun x => !x.isBelow t lost shut := by
  rw [found_eq_nil (listed_eq_nil_of_not_isListable hlist)]
  refine (List.filter_eq_nil_iff.mpr fun x hx => ?_).symm
  rw [hbelow x hx]
  simp

omit h in
lemma found_eq_of_listed_eq_nil (hlist : listed t dir = []) (hlist' : listed t' dir = []) :
    found t' version room within dir context
      = (found t version room within dir context).filter fun x => !x.isBelow t lost shut := by
  rw [found_eq_nil hlist, found_eq_nil hlist', List.filter_nil]

/-- In a tree that has lost something the walk finds what is not below that. -/
lemma found_eq (hopen : ∀ d ∈ within, t.leadsTo shut d = false) :
    found t' version room within dir context
      = (found t version room within dir context).filter fun x => !x.isBelow t lost shut := by
  induction room generalizing within dir context with
  | zero => rfl
  | succ room ih =>
    cases hover : t.leadsOver lost dir with
    | true =>
      refine found_eq_of_isBelow (h.not_isListable hover) fun x hx => ?_
      rw [Find.isBelow, leadsOver_of_found hover hx, Bool.true_or]
    | false =>
      cases hlist : t.isListable dir with
      | false =>
        have hlist' : t'.isListable dir = false := by
          by_contra hlist'
          cases hlist.symm.trans
            (h.isListable_of_isListable (Bool.eq_true_of_not_eq_false hlist'))
        exact found_eq_of_listed_eq_nil (listed_eq_nil_of_not_isListable hlist)
          (listed_eq_nil_of_not_isListable hlist')
      | true =>
        obtain ⟨there, hresolve, hfind⟩ := Tree.isListable_iff.mp hlist
        cases there with
        | removed around =>
          exact found_eq_of_listed_eq_nil (listed_of_removed hresolve)
            (listed_of_removed ((h.resolve_eq hover).trans hresolve))
        | inTree place =>
          cases hshut : shut place with
          | false =>
            exact found_eq_of_open h hover hresolve hfind hshut hopen
              fun _ _ _ hopen => ih hopen
          | true =>
            refine found_eq_of_isBelow (h.not_isListable_of_shut hover hresolve hshut)
              fun x hx => ?_
            have hmem : dir ∈ x.within := (within_suffix hx).mem List.mem_cons_self
            have hleads : t.leadsTo shut dir = true := by
              rw [Tree.leadsTo, hresolve]
              exact hshut
            rw [Find.isBelow, List.any_eq_true.mpr ⟨dir, hmem, hleads⟩, Bool.or_true]

lemma found_roots_eq (roots : List Root) :
    (roots.flatMap (Root.course t' version)).filterMap Act.found?
      = ((roots.flatMap (Root.course t version)).filterMap Act.found?).filter fun x =>
          !x.isBelow t lost shut := by
  rw [List.filterMap_flatMap, List.filterMap_flatMap, List.filter_flatMap]
  refine List.flatMap_congr fun r _ => ?_
  rw [found_root, found_root]
  exact found_eq h (by simp)

end Damage

end Walk

/-! ## Walks -/

namespace Walker

open Walk

variable {version : String}

lemma collect_ofRoots (t : Tree) (version : String) (roots : List Root) :
    (ofRoots version roots).collect t = roots.flatMap (Root.listing t version) := by
  rw [collect_eq_segments]
  rfl

lemma collect_eq_found (t : Tree) (version : String) (roots : List Root) :
    (ofRoots version roots).collect t
      = ((roots.flatMap (Root.course t version)).filterMap Act.found?).map Find.segment := by
  rw [collect_ofRoots, List.filterMap_flatMap, List.map_flatMap]
  exact List.flatMap_congr fun r _ => (segments_course_root t version r).symm

lemma collect_eq_below {t : Tree} {below : Path → Context → List Segment}
    (h : Recursive t version below) (roots : List Root) :
    (ofRoots version roots).collect t
      = (roots.filter fun r => t.leadsSomewhere r.path).flatMap fun r => below r.path r.context := by
  rw [collect_ofRoots]
  refine (flatMap_filter_eq (fun r _ hleads => ?_) fun r _ hleads => ?_).symm
  · rw [Root.listing, if_pos hleads, h.eq_listing le_rfl]
  · rw [Root.listing, if_neg (Bool.eq_false_iff.mp hleads)]

/-- **A walk is the recursion over the tree, and damage stays where it is.**  What is in and below a
directory is defined by recursion, in one way; a walk that is asked until it is at its end yields that
for the roots that are there, in their order, and reads each directory in the order of the bytes of
its names.  A loop over a stack of directories that it is halfway through comes to its end and does
the same (`acts`).  If what is at some place is missing, or a directory there cannot be listed or not
be read, a walk yields what it yielded before, in the same order, without what is below that place. -/
theorem collect_recursive (t : Tree) (version : String) (roots : List Root) :
    ∃ (below : Path → Context → List Segment) (acts : List Act),
      Recursive t version below ∧ (∀ other, Recursive t version other → other = below) ∧
      (∀ dir, (listed t dir).Pairwise fun a b => Text.utf8 a.name.val < Text.utf8 b.name.val) ∧
      (ofRoots version roots).collect t
        = (roots.filter fun r => t.leadsSomewhere r.path).flatMap
            (fun r => below r.path r.context) ∧
      (∀ acts', Loop.Runs t version ⟨[], roots⟩ acts' ↔ acts' = acts) ∧
      (ofRoots version roots).collect t = (acts.filterMap Act.found?).map Find.segment ∧
      ∀ (place : Place) (d : Tree.Damage),
        place ≠ [] → (d = .missing ∨ t.isDirectory place = true) →
          (ofRoots version roots).collect (t.damaged place d)
            = ((acts.filterMap Act.found?).filter fun x =>
                !x.isBelow t (d.lost place) (d.shut place)).map Find.segment := by
  have hrecursive : Recursive t version _ := recursive_iff.mpr rfl
  refine ⟨_, roots.flatMap (Root.course t version), hrecursive, fun other => recursive_iff.mp,
    pairwise_listed t, collect_eq_below hrecursive roots, Loop.runs_iff t version roots,
    collect_eq_found t version roots, fun place d hplace hdir => ?_⟩
  rw [collect_eq_found, found_roots_eq (Tree.loses_damaged hplace hdir)]

/-- Without the directory of its database a relation is not found. -/
theorem collect_recursive_database :
    ∃ x : Find, x.isBelow Tracking.databaseTree
        (Tree.Damage.missing.lost [.ofText "5", .ofText "base", .ofText "data"])
        (Tree.Damage.missing.shut [.ofText "5", .ofText "base", .ofText "data"]) = true ∧
      (ofRoots "v1" [Tracking.databaseRoot]).collect Tracking.databaseTree = [x.segment] ∧
      (ofRoots "v1" [Tracking.databaseRoot]).collect (Tracking.databaseTree.damaged
        [.ofText "5", .ofText "base", .ofText "data"] .missing) = [] := by
  obtain ⟨-, acts, -, -, -, -, -, hfound, hdamaged⟩ :=
    collect_recursive Tracking.databaseTree "v1" [Tracking.databaseRoot]
  have hdamaged := hdamaged [.ofText "5", .ofText "base", .ofText "data"] .missing
    (List.cons_ne_nil _ _) (.inl rfl)
  have hlisting := collect_ofRoots Tracking.databaseTree "v1" [Tracking.databaseRoot]
  rw [List.flatMap_singleton, Tracking.listing_databaseTree] at hlisting
  obtain ⟨x, hx, hsegment⟩ := List.map_eq_singleton_iff.mp (hfound.symm.trans hlisting)
  have hresolve : Tracking.databaseTree.resolve ⟨"data/base/5/16384"⟩
      = .ok (.inTree [.ofText "16384", .ofText "5", .ofText "base", .ofText "data"]) := by
    decide +kernel
  have hbelow : x.isBelow Tracking.databaseTree
      (Tree.Damage.missing.lost [.ofText "5", .ofText "base", .ofText "data"])
      (Tree.Damage.missing.shut [.ofText "5", .ofText "base", .ofText "data"]) = true := by
    have hpath : x.segment.path = ⟨"data/base/5/16384"⟩ := by
      rw [hsegment]
      decide +kernel
    rw [Find.isBelow, hpath, Tree.leadsOver_of_resolve hresolve (by decide +kernel), Bool.true_or]
  refine ⟨x, hbelow, ?_, ?_⟩
  · rw [hfound, hx, List.map_singleton]
  · rw [hdamaged, hx]
    simp [hbelow]

end Walker

end ChangeTracking
