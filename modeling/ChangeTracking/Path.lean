import ChangeTracking.Text.Cut

/-!
# Paths

A path is a text that names a place in a directory tree.  Slashes separate its components; a path
that starts with a slash is absolute.  Repeated slashes, a slash at the end and components `.` other
than the first one of a relative path make no component, so paths of different texts may have the
same components.  What a component *means* is up to a tree; this module only deals with the text.
-/

namespace ChangeTracking

/-- A path, as it was written. -/
structure Path where
  text : String
  deriving DecidableEq

namespace Path

/-- A component of a path. -/
inductive Component
  /-- The slash in front of an absolute path. -/
  | root
  /-- The dot in front of a relative path. -/
  | here
  /-- Two dots. -/
  | up
  /-- A name. -/
  | name (s : String)
  deriving DecidableEq

/-- Whether the path starts at the root of the tree. -/
def isAbsolute (p : Path) : Bool := p.text.toList.head? == some '/'

/-- The texts between the slashes, empty ones included. -/
def segments (p : Path) : List String :=
  (Text.pieces '/' p.text.toList).map String.ofList

/-- The component that a text between slashes makes, if it makes one. -/
def Component.ofSegment? (segment : String) : Option Component :=
  if segment = "" ∨ segment = "." then none
  else if segment = ".." then some up
  else some (name segment)

/-- The components of a path. -/
def components (p : Path) : List Component :=
  let body := p.segments.filterMap Component.ofSegment?
  if p.isAbsolute then .root :: body
  else if p.segments.head? = some "." then .here :: body
  else body

/-- The text of a component. -/
def Component.text : Component → String
  | root => ""
  | here => "."
  | up => ".."
  | name s => s

/-- The path with the given components. -/
def ofComponents : List Component → Path
  | [.root] => ⟨"/"⟩
  | components => ⟨"/".intercalate (components.map Component.text)⟩

/-- The names among the components. -/
def names (p : Path) : List String :=
  p.components.filterMap fun
    | .name s => some s
    | _ => none

/-- The path that leads on from `p`.  An absolute path leads to the same place from everywhere. -/
def join (p : Path) (further : String) : Path :=
  if (Path.mk further).isAbsolute then ⟨further⟩
  else if p.text.toList.getLast?.any (· ≠ '/') then ⟨p.text ++ "/" ++ further⟩
  else ⟨p.text ++ further⟩

/-- The paths that lead on from the text `front` by the given texts between slashes, each up to the
end of a component. -/
def stationsFrom (front : String) : List String → List Path
  | [] => []
  | segment :: rest =>
    let further := front ++ "/" ++ segment
    if (Component.ofSegment? segment).isSome then ⟨further⟩ :: stationsFrom further rest
    else stationsFrom further rest

/-- The beginnings of the path that end with a component, the shortest first.  They keep the slashes
and dots that the path has in between. -/
def stations (p : Path) : List Path :=
  match p.segments with
  | [] => []
  | first :: rest =>
    if p.isAbsolute then ⟨"/"⟩ :: stationsFrom "" rest
    else if first = "" then []
    else ⟨first⟩ :: stationsFrom first rest

/-- The path up to the component before its last one, if it has one that can be taken away.  A name
alone is taken away from the empty path. -/
def parent? (p : Path) : Option Path :=
  match p.stations.reverse with
  | [] => none
  | [_] => if p.isAbsolute then none else some ⟨""⟩
  | _ :: parent :: _ => some parent

/-- The rest of `components` after those in front, if they are in front. -/
def after? : (front components : List Component) → Option (List Component)
  | [], rest => some rest
  | c :: front, d :: rest => if c = d then after? front rest else none
  | _ :: _, [] => none

/-- Whether a text between slashes makes a component, wherever it stands. -/
def makesComponent (segment : String) : Bool := (Component.ofSegment? segment).isSome

/-- The first of the given texts, up to the one that makes the last of `count` components. -/
def untilComponent : (count : Nat) → List String → List String
  | 0, _ | _, [] => []
  | count + 1, segment :: rest =>
    segment :: untilComponent (if makesComponent segment then count else count + 1) rest

/-- The texts between the slashes of the last `count` components, with what is between them.  What
comes after the last component is left out. -/
def lastSegments (p : Path) (count : Nat) : List String :=
  (untilComponent count (p.segments.reverse.dropWhile (!makesComponent ·))).reverse

/-- The path from `base` on, if the components of `base` are in front.  It is written from one
component to another, as `p` has it. -/
def relativeTo? (p base : Path) : Option Path :=
  (after? base.components p.components).map fun rest =>
    ⟨"/".intercalate (p.lastSegments rest.length)⟩

end Path

end ChangeTracking
