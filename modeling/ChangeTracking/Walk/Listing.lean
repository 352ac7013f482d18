import ChangeTracking.Walk.Context

/-!
# The segment files below a directory

All segment files in and below a directory, by recursion into directories and tablespaces, with the
entries of each directory in the order of their names.

A path grows with each level and cannot be opened from a certain length on, so the length that is
left bounds the depth.  Links that lead in a circle only make it that deep.
-/

namespace ChangeTracking.Walk

/-- The entries of a directory; none if it cannot be listed. -/
def listed (t : Tree) (dir : Path) : List Tree.Entry :=
  match t.listDirectory dir with
  | .ok entries => entries
  | .error _ => []

/-- The length that a path may still grow by. -/
def roomFor (p : Path) : Nat := Tree.pathLimit - p.text.utf8ByteSize

/-- A directory to be walked, and what is known about it. -/
structure Root where
  path : Path
  context : Context

/-- The segment files that an entry stands for, where `inside` gives those of a directory. -/
def segmentsOf (t : Tree) (version : String) (inside : Path → Context → List Segment) (dir : Path)
    (context : Context) (e : Tree.Entry) : List Segment :=
  match lookAt t version dir context e with
  | .skip => []
  | .file segment => [segment]
  | .enter inner => inside (dir.join e.name.val) inner

/-- The segment files in and below a directory, going down at most `room` levels. -/
def listing (t : Tree) (version : String) : (room : Nat) → Path → Context → List Segment
  | 0, _, _ => []
  | room + 1, dir, context =>
    (listed t dir).flatMap (segmentsOf t version (listing t version room) dir context)

/-- The segment files of a root; none if its path leads nowhere. -/
def Root.listing (t : Tree) (version : String) (r : Root) : List Segment :=
  if t.leadsSomewhere r.path then Walk.listing t version (roomFor r.path) r.path r.context
  else []

end ChangeTracking.Walk
