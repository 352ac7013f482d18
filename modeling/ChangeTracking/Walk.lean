import ChangeTracking.Walk.Listing

/-!
# Walking a data directory in steps

A `Walker` is a walk that can be stopped after each segment file and taken up again, on a tree that
may have changed in between.  Whether a root is there is asked, and a directory's entries are read,
when the walk reaches it; a file's size is read when the walk reaches the file.

A walk that is stopped is a stack of directories with the entries that are still to come.  To go
on is to search these, innermost first, for the next segment file.  `Walker.segments` says what
is left of a walk if the tree stays as it is, and `next_eq_some` and `next_eq_none_iff` that the
walk yields just that.
-/

namespace ChangeTracking

open Walk

/-- A directory that the walk is in: the entries that are still to come, and how much deeper the walk
may go from here. -/
structure Walk.Level where
  dir : Path
  context : Context
  entries : List Tree.Entry
  room : Nat

/-- A walk that has come to some place: the directories it is in, innermost first, and the roots
that are still to come. -/
structure Walker where
  version : String
  stack : List Level
  roots : List Root

namespace Walker

/-- What a search finds: a segment file and the directories that the walk is in then. -/
abbrev Found := Option (Segment × List Level)

/-- The first segment file that the given entries stand for, where `inside` searches a
directory. -/
def search (t : Tree) (version : String) (inside : Path → Context → Found) (room : Nat) (dir : Path)
    (context : Context) : List Tree.Entry → Found
  | [] => none
  | e :: rest =>
    match lookAt t version dir context e with
    | .skip => search t version inside room dir context rest
    | .file segment => some (segment, [⟨dir, context, rest, room⟩])
    | .enter inner =>
      match inside (dir.join e.name.val) inner with
      | some (segment, levels) => some (segment, levels ++ [⟨dir, context, rest, room⟩])
      | none => search t version inside room dir context rest

/-- The first segment file in and below a directory. -/
def searchDirectory (t : Tree) (version : String) : (room : Nat) → Path → Context → Found
  | 0, _, _ => none
  | room + 1, dir, context =>
    search t version (searchDirectory t version room) room dir context (listed t dir)

/-- The next segment file in the directories that the walk is in. -/
def resume (t : Tree) (version : String) : List Level → Found
  | [] => none
  | level :: outer =>
    match search t version (searchDirectory t version level.room) level.room level.dir level.context
        level.entries with
    | some (segment, levels) => some (segment, levels ++ outer)
    | none => resume t version outer

/-- The first segment file of the roots, and the roots after the one it is in. -/
def searchRoots (t : Tree) (version : String) :
    List Root → Option (Segment × List Level × List Root)
  | [] => none
  | r :: rest =>
    if t.leadsSomewhere r.path then
      match searchDirectory t version (roomFor r.path) r.path r.context with
      | some (segment, levels) => some (segment, levels, rest)
      | none => searchRoots t version rest
    else searchRoots t version rest

/-- The next segment file and the walk after it; `none` at the end. -/
def next (t : Tree) (w : Walker) : Option (Segment × Walker) :=
  match resume t w.version w.stack with
  | some (segment, stack) => some (segment, { w with stack := stack })
  | none =>
    match searchRoots t w.version w.roots with
    | some (segment, stack, roots) => some (segment, ⟨w.version, stack, roots⟩)
    | none => none

/-- A walk that has not begun. -/
def ofRoots (version : String) (roots : List Root) : Walker := ⟨version, [], roots⟩

/-- The walk over a data directory: the shared relations, the default tablespace, and the other
tablespaces. -/
def ofDataDirectory (version : String) (data : Path) : Walker :=
  ofRoots version
    [⟨data.join "global", ⟨sharedTablespace, noOid⟩⟩, ⟨data.join "base", .unknown⟩,
      ⟨data.join "pg_tblspc", .unknown⟩]

/-! ## What is left of a walk -/

/-- The segment files that a directory still has in store. -/
def levelSegments (t : Tree) (version : String) (level : Level) : List Segment :=
  level.entries.flatMap
    (segmentsOf t version (listing t version level.room) level.dir level.context)

/-- All segment files still to come, if the tree stays as it is. -/
def segments (t : Tree) (w : Walker) : List Segment :=
  w.stack.flatMap (levelSegments t w.version) ++ w.roots.flatMap (Root.listing t w.version)

/-- A search has found the first of the segment files in `all`, and has the others in store. -/
def Yields (t : Tree) (version : String) (found : Found) (all : List Segment) : Prop :=
  match found with
  | none => all = []
  | some (segment, levels) => all = segment :: levels.flatMap (levelSegments t version)

theorem yields_search {t : Tree} {version : String} {room : Nat} {inside : Path → Context → Found}
    (h : ∀ dir context, Yields t version (inside dir context) (listing t version room dir context))
    (dir : Path) (context : Context) (entries : List Tree.Entry) :
    Yields t version (search t version inside room dir context entries)
      (entries.flatMap (segmentsOf t version (listing t version room) dir context)) := by
  induction entries with
  | nil => simp [search, Yields]
  | cons e rest ih =>
    rw [List.flatMap_cons, search]
    cases hv : lookAt t version dir context e with
    | skip => simpa [segmentsOf, hv] using ih
    | file segment => simp [segmentsOf, hv, Yields, levelSegments]
    | enter inner =>
      have hin := h (dir.join e.name.val) inner
      cases hf : inside (dir.join e.name.val) inner with
      | none =>
        rw [hf] at hin
        simp only [Yields] at hin
        simpa [segmentsOf, hv, hin, hf] using ih
      | some found =>
        obtain ⟨segment, levels⟩ := found
        rw [hf] at hin
        simp only [Yields] at hin
        simp [segmentsOf, hv, hin, hf, Yields, levelSegments]

theorem yields_searchDirectory (t : Tree) (version : String) (room : Nat) (dir : Path)
    (context : Context) :
    Yields t version (searchDirectory t version room dir context)
      (listing t version room dir context) := by
  induction room generalizing dir context with
  | zero => simp [searchDirectory, listing, Yields]
  | succ room ih => exact yields_search ih dir context _

theorem yields_resume (t : Tree) (version : String) (stack : List Level) :
    Yields t version (resume t version stack) (stack.flatMap (levelSegments t version)) := by
  induction stack with
  | nil => simp [resume, Yields]
  | cons level outer ih =>
    have h := yields_search (yields_searchDirectory t version level.room) level.dir level.context
      level.entries
    rw [List.flatMap_cons, resume]
    cases hs : search t version (searchDirectory t version level.room) level.room level.dir
        level.context level.entries with
    | none =>
      rw [hs] at h
      simp only [Yields] at h
      simpa [levelSegments, h] using ih
    | some found =>
      obtain ⟨segment, levels⟩ := found
      rw [hs] at h
      simp only [Yields] at h
      simp only [Yields, levelSegments, h, List.flatMap_append, List.cons_append]

theorem searchRoots_segments (t : Tree) (version : String) (roots : List Root) :
    match searchRoots t version roots with
    | none => roots.flatMap (Root.listing t version) = []
    | some (segment, levels, rest) =>
      roots.flatMap (Root.listing t version)
        = segment :: (levels.flatMap (levelSegments t version)
            ++ rest.flatMap (Root.listing t version)) := by
  induction roots with
  | nil => simp [searchRoots]
  | cons r rest ih =>
    rw [List.flatMap_cons, searchRoots]
    by_cases hr : t.leadsSomewhere r.path
    · have h := yields_searchDirectory t version (roomFor r.path) r.path r.context
      cases hs : searchDirectory t version (roomFor r.path) r.path r.context with
      | none =>
        rw [hs] at h
        simp only [Yields] at h
        simpa [hr, Root.listing, h] using ih
      | some found =>
        obtain ⟨segment, levels⟩ := found
        rw [hs] at h
        simp only [Yields] at h
        simp [hr, Root.listing, h]
    · simpa [hr, Root.listing] using ih

/-- The next segment file is the first of those that are left. -/
theorem next_eq_some {t : Tree} {w w' : Walker} {segment : Segment}
    (h : w.next t = some (segment, w')) : w.segments t = segment :: w'.segments t := by
  have hresume := yields_resume t w.version w.stack
  unfold next at h
  unfold segments
  cases hs : resume t w.version w.stack with
  | some found =>
    obtain ⟨s, stack⟩ := found
    rw [hs] at h hresume
    simp only [Option.some.injEq, Prod.mk.injEq] at h
    obtain ⟨rfl, rfl⟩ := h
    simp only [Yields] at hresume
    simp [hresume]
  | none =>
    rw [hs] at h hresume
    simp only [Yields] at hresume
    have hroots := searchRoots_segments t w.version w.roots
    cases hr : searchRoots t w.version w.roots with
    | none => simp [hr] at h
    | some found =>
      obtain ⟨s, stack, roots⟩ := found
      rw [hr] at hroots
      simp only [hr, Option.some.injEq, Prod.mk.injEq] at h
      obtain ⟨rfl, rfl⟩ := h
      simp [hresume, hroots]

/-- The walk is at its end exactly when no segment file is left. -/
theorem next_eq_none_iff {t : Tree} {w : Walker} : w.next t = none ↔ w.segments t = [] := by
  constructor
  · intro h
    have hresume := yields_resume t w.version w.stack
    have hroots := searchRoots_segments t w.version w.roots
    unfold next at h
    unfold segments
    cases hs : resume t w.version w.stack with
    | some found => simp [hs] at h
    | none =>
      cases hr : searchRoots t w.version w.roots with
      | some found => simp [hs, hr] at h
      | none =>
        rw [hs] at hresume
        rw [hr] at hroots
        simp only [Yields] at hresume
        simp [hresume, hroots]
  · intro h
    cases hn : w.next t with
    | none => rfl
    | some found =>
      obtain ⟨segment, w'⟩ := found
      rw [next_eq_some hn] at h
      simp at h

end Walker

end ChangeTracking
