import ChangeTracking.Proofs.Visits

/-!
# The walk as a loop, and as a recursion

A walk that is asked for its next segment file searches the directories that it is in, one entry after
another.  Written out as a loop (`Loop.turn`), it keeps a stack of directories, each with the entries
that are still to come, and a queue of roots; a turn takes one entry, one root, or a directory without
further entries off.  Nothing in it bounds how deep the walk goes.

The recursion `course` says what all turns do together: at a file the file is found, and at a directory
or link that the walk goes into all that is below it comes before the next entry.  Each level leaves
less room for the path (`roomFor_join_lt`), so a loop comes to its end, and what it has done by then is
what the recursion says (`Loop.runs_iff`).  For the same reason listings need no bound on their depth:
there is just one that says of each directory what is in and below it (`recursive_iff`).
-/

namespace ChangeTracking

namespace Walk

variable {t : Tree} {version : String}

/-! ## Room -/

lemma text_ne_of_mem_listed {dir : Path} {e : Tree.Entry} (he : e ∈ listed t dir) :
    dir.text ≠ "" :=
  (Tree.checkPath_eq_ok.mp (Tree.checkPath_of_isListable (isListable_of_mem_listed he))).2.1

/-- There is less room below a directory than in it. -/
lemma roomFor_join_lt {dir : Path} {e : Tree.Entry} (he : e ∈ listed t dir) :
    roomFor (dir.join e.name.val) < roomFor dir := by
  have hname := e.name.property
  have hsize := Tree.size_lt_of_isListable (isListable_of_mem_listed he)
  have hlonger := Path.size_join_le (text_ne_of_mem_listed he) hname.isAbsolute
  have hpos := hname.size_pos
  unfold roomFor
  omega

lemma listed_eq_nil {dir : Path} (h : roomFor dir = 0) : listed t dir = [] := by
  refine List.eq_nil_iff_forall_not_mem.mpr fun e he => ?_
  have hless := roomFor_join_lt he
  omega

/-! ## Listings without a bound -/

/-- What the segment files in and below a directory are, however deep they are: each entry stands for
what it stands for, in the order of the entries. -/
def Recursive (t : Tree) (version : String) (below : Path → Context → List Segment) : Prop :=
  ∀ dir context, below dir context
    = (listed t dir).flatMap (segmentsOf t version below dir context)

/-- What is listed in a directory depends on what is listed in those below it, where paths have less
room. -/
lemma flatMap_segmentsOf_congr {dir : Path} {inside inside' : Path → Context → List Segment}
    (h : ∀ p context, roomFor p < roomFor dir → inside p context = inside' p context)
    (context : Context) :
    (listed t dir).flatMap (segmentsOf t version inside dir context)
      = (listed t dir).flatMap (segmentsOf t version inside' dir context) := by
  refine List.flatMap_congr fun e he => ?_
  unfold segmentsOf
  cases lookAt t version dir context e with
  | skip => rfl
  | file f => rfl
  | enter inner => exact h _ inner (roomFor_join_lt he)

/-- With the room that a path leaves, a listing is as deep as there is anything. -/
lemma Recursive.eq_listing {below : Path → Context → List Segment} (h : Recursive t version below)
    {room : Nat} {dir : Path} (hroom : roomFor dir ≤ room) (context : Context) :
    below dir context = listing t version room dir context := by
  induction room generalizing dir context with
  | zero => rw [h, listed_eq_nil (Nat.le_zero.mp hroom), List.flatMap_nil, listing]
  | succ room ih =>
    rw [h, listing]
    exact flatMap_segmentsOf_congr (fun p inner hless => ih (by omega) inner) context

lemma listing_succ {room : Nat} {dir : Path} (hroom : roomFor dir ≤ room) (context : Context) :
    listing t version (room + 1) dir context = listing t version room dir context := by
  induction room generalizing dir context with
  | zero => rw [listing, listing, listed_eq_nil (Nat.le_zero.mp hroom), List.flatMap_nil]
  | succ room ih =>
    rw [listing, listing]
    exact flatMap_segmentsOf_congr (fun p inner hless => ih (by omega) inner) context

lemma listing_roomFor {room : Nat} {dir : Path} (hroom : roomFor dir ≤ room) (context : Context) :
    listing t version room dir context = listing t version (roomFor dir) dir context := by
  induction room, hroom using Nat.le_induction with
  | base => rfl
  | succ room hroom ih => rw [listing_succ hroom, ih]

/-- There is such a listing, and only this one. -/
lemma recursive_iff {below : Path → Context → List Segment} :
    Recursive t version below ↔
      below = fun dir context => listing t version (roomFor dir) dir context := by
  constructor
  · intro h
    funext dir context
    exact h.eq_listing le_rfl context
  · rintro rfl dir context
    dsimp only
    rw [← listing_succ le_rfl, listing]
    exact flatMap_segmentsOf_congr (fun p inner hless => listing_roomFor hless.le inner) context

/-! ## The recursion -/

/-- A segment file that a walk finds, and the directories that it lists on the way, innermost first. -/
structure Find where
  segment : Segment
  within : List Path

/-- What a walk does. -/
inductive Act
  /-- It goes into a directory. -/
  | opens (dir : Path)
  | finds (x : Find)

namespace Act

/-- The directory that is gone into. -/
def opened? : Act → Option Path
  | opens dir => some dir
  | finds _ => none

/-- What is found. -/
def found? : Act → Option Find
  | opens _ => none
  | finds x => some x

end Act

/-- What the walk does at an entry of the directory `dir`, which is within others; `inside` gives what
it does in a directory. -/
def actsAt (t : Tree) (version : String) (inside : List Path → Path → Context → List Act)
    (within : List Path) (dir : Path) (context : Context) (e : Tree.Entry) : List Act :=
  match lookAt t version dir context e with
  | .skip => []
  | .file f => [.finds ⟨f, dir :: within⟩]
  | .enter inner =>
    .opens (dir.join e.name.val) :: inside (dir :: within) (dir.join e.name.val) inner

/-- What the walk does in and below a directory, going down at most `room` levels. -/
def course (t : Tree) (version : String) :
    (room : Nat) → (within : List Path) → Path → Context → List Act
  | 0, _, _, _ => []
  | room + 1, within, dir, context =>
    (listed t dir).flatMap (actsAt t version (course t version room) within dir context)

lemma course_eq_nil {room : Nat} {within : List Path} {dir : Path} {context : Context}
    (h : listed t dir = []) : course t version room within dir context = [] := by
  cases room with
  | zero => rfl
  | succ room => rw [course, h, List.flatMap_nil]

/-- What the walk does at a root. -/
def Root.course (t : Tree) (version : String) (r : Root) : List Act :=
  if t.leadsSomewhere r.path then
    .opens r.path :: Walk.course t version (roomFor r.path) [] r.path r.context
  else []

/-- The recursion finds the segment files that are listed. -/
lemma segments_course (t : Tree) (version : String) (room : Nat) (within : List Path) (dir : Path)
    (context : Context) :
    ((course t version room within dir context).filterMap Act.found?).map Find.segment
      = listing t version room dir context := by
  induction room generalizing within dir context with
  | zero => rfl
  | succ room ih =>
    rw [course, listing, List.filterMap_flatMap, List.map_flatMap]
    refine List.flatMap_congr fun e _ => ?_
    rw [actsAt, segmentsOf]
    cases lookAt t version dir context e with
    | skip => rfl
    | file f => rfl
    | enter inner => exact ih _ _ _

lemma segments_course_root (t : Tree) (version : String) (r : Root) :
    ((r.course t version).filterMap Act.found?).map Find.segment = r.listing t version := by
  unfold Root.course Root.listing
  split
  · exact segments_course t version _ _ _ _
  · rfl

/-! ## The loop -/

/-- A directory that the loop is in, with the entries that are still to come. -/
structure Frame where
  dir : Path
  context : Context
  entries : List Tree.Entry

/-- A directory that the loop has just gone into. -/
def Frame.opened (t : Tree) (dir : Path) (context : Context) : Frame := ⟨dir, context, listed t dir⟩

/-- A loop that has come to some place: the directories it is in, innermost first, and the roots that
are still to come. -/
structure Loop where
  frames : List Frame
  roots : List Root

namespace Loop

/-- One turn of the loop: what it does, and the loop after it; nothing at the end. -/
def turn (t : Tree) (version : String) : Loop → Option (List Act × Loop)
  | ⟨[], []⟩ => none
  | ⟨[], r :: roots⟩ =>
    if t.leadsSomewhere r.path then
      some ([.opens r.path], ⟨[.opened t r.path r.context], roots⟩)
    else some ([], ⟨[], roots⟩)
  | ⟨⟨_, _, []⟩ :: outer, roots⟩ => some ([], ⟨outer, roots⟩)
  | ⟨⟨dir, context, e :: rest⟩ :: outer, roots⟩ =>
    match lookAt t version dir context e with
    | .skip => some ([], ⟨⟨dir, context, rest⟩ :: outer, roots⟩)
    | .file f =>
      some ([.finds ⟨f, dir :: outer.map Frame.dir⟩], ⟨⟨dir, context, rest⟩ :: outer, roots⟩)
    | .enter inner =>
      some ([.opens (dir.join e.name.val)],
        ⟨.opened t (dir.join e.name.val) inner :: ⟨dir, context, rest⟩ :: outer, roots⟩)

/-- The loop comes to its end, and has done this by then. -/
inductive Runs (t : Tree) (version : String) : Loop → List Act → Prop
  | done {l : Loop} (h : l.turn t version = none) : Runs t version l []
  | turn {l next : Loop} {acts later : List Act} (h : l.turn t version = some (acts, next))
      (hlater : Runs t version next later) : Runs t version l (acts ++ later)

lemma Runs.quiet {l next : Loop} {later : List Act} (h : l.turn t version = some ([], next))
    (hlater : Runs t version next later) : Runs t version l later :=
  .turn h hlater

lemma Runs.act {l next : Loop} {a : Act} {later : List Act}
    (h : l.turn t version = some ([a], next)) (hlater : Runs t version next later) :
    Runs t version l (a :: later) :=
  .turn h hlater

/-- There is only one thing that a loop does. -/
lemma Runs.unique {l : Loop} {acts acts' : List Act} (h : Runs t version l acts)
    (h' : Runs t version l acts') : acts = acts' := by
  induction h generalizing acts' with
  | done hend =>
    cases h' with
    | done => rfl
    | turn hturn => cases hend.symm.trans hturn
  | turn hturn _ ih =>
    cases h' with
    | done hend => cases hend.symm.trans hturn
    | turn hturn' hlater =>
      obtain ⟨rfl, rfl⟩ := Prod.mk.inj (Option.some.inj (hturn.symm.trans hturn'))
      rw [ih hlater]

/-- A loop that is in a directory does what the recursion says for the directory's entries, and goes
on with the directories around it. -/
lemma runs_opened {room : Nat} {dir : Path} (hroom : roomFor dir ≤ room) (context : Context)
    {outer : List Frame} {roots : List Root} {later : List Act}
    (hlater : Runs t version ⟨outer, roots⟩ later) :
    Runs t version ⟨.opened t dir context :: outer, roots⟩
      (course t version room (outer.map Frame.dir) dir context ++ later) := by
  induction room generalizing dir context outer later with
  | zero =>
    rw [Frame.opened, listed_eq_nil (Nat.le_zero.mp hroom)]
    exact .quiet rfl hlater
  | succ room ih =>
    -- by induction on the entries, of which each is one of the directory
    have hentries : ∀ entries : List Tree.Entry, (∀ e ∈ entries, e ∈ listed t dir) →
        Runs t version ⟨⟨dir, context, entries⟩ :: outer, roots⟩
          (entries.flatMap (actsAt t version (course t version room) (outer.map Frame.dir) dir
            context) ++ later) := by
      intro entries hall
      induction entries with
      | nil => exact .quiet rfl hlater
      | cons e rest ihentries =>
        have hrest := ihentries fun other hother => hall other (List.mem_cons_of_mem e hother)
        rw [List.flatMap_cons, List.append_assoc, actsAt]
        cases hlook : lookAt t version dir context e with
        | skip => exact .quiet (by rw [turn, hlook]) hrest
        | file f => exact .act (by rw [turn, hlook]) hrest
        | enter inner =>
          have hless := roomFor_join_lt (hall e List.mem_cons_self)
          have hroom' : roomFor (dir.join e.name.val) ≤ room := by omega
          exact .act (by rw [turn, hlook]) (ih hroom' inner hrest)
    exact hentries (listed t dir) fun _ he => he

lemma runs_roots (t : Tree) (version : String) (roots : List Root) :
    Runs t version ⟨[], roots⟩ (roots.flatMap (Root.course t version)) := by
  induction roots with
  | nil => exact .done rfl
  | cons r rest ih =>
    rw [List.flatMap_cons, Root.course]
    by_cases hroot : t.leadsSomewhere r.path = true
    · rw [if_pos hroot]
      exact .act (by rw [turn, if_pos hroot]) (runs_opened le_rfl r.context ih)
    · rw [if_neg hroot]
      exact .quiet (by rw [turn, if_neg hroot]) ih

/-- **The loop does what the recursion says.**  A loop over some roots comes to its end, in every tree,
and what it does until then is what the recursion says for the roots that are there, in their
order. -/
theorem runs_iff (t : Tree) (version : String) (roots : List Root) (acts : List Act) :
    Runs t version ⟨[], roots⟩ acts ↔ acts = roots.flatMap (Root.course t version) := by
  constructor
  · exact fun h => h.unique (runs_roots t version roots)
  · rintro rfl
    exact runs_roots t version roots

end Loop

end Walk

end ChangeTracking
