import ChangeTracking.Error
import ChangeTracking.Path
import ChangeTracking.Tree

/-!
# Looking things up in a tree

A path is followed step by step, from the root or from the current directory.  A symbolic link on
the way is replaced by the path it stands for, which starts at the directory the link is in.  At
most `linkLimit` links are followed for one path, so that links that lead in a circle are an error
and not a loop; a path of `pathLimit` bytes or more and a name of more than `nameLimit` bytes are
errors as well.

`resolve` follows a link at the end of a path and `entryAt?` does not.
-/

namespace ChangeTracking

/-- A step on the way from a place. -/
inductive Step
  /-- Stays, which only a directory allows. -/
  | stay
  /-- To the directory around this one; from the root, to the root. -/
  | up
  /-- To the entry of the given name. -/
  | down (name : Name)

/-- The step that a text between slashes asks for. -/
def Step.ofSegment? (segment : String) : Option Step :=
  if segment = "" then none
  else if segment = "." then some .stay
  else if segment = ".." then some .up
  else if h : ValidName segment then some (.down ⟨segment, h⟩)
  else none

namespace Path

/-- The steps of a path without a slash at its end. -/
def plainSteps (p : Path) : List Step :=
  p.segments.filterMap Step.ofSegment?

/-- Whether the path ends with a slash. -/
def slashEnded (p : Path) : Bool := p.text.toList.getLast? == some '/'

/-- The steps of a path.  A slash at its end asks for a directory. -/
def steps (p : Path) : List Step :=
  if p.slashEnded then p.plainSteps ++ [.stay] else p.plainSteps

end Path

namespace Tree

/-- The number of links that are followed for one path. -/
def linkLimit : Nat := 40

/-- The number of bytes that a path does not reach. -/
def pathLimit : Nat := 4096

/-- The number of bytes that a name may have. -/
def nameLimit : Nat := 255

/-! ## Following paths -/

/-- The place that a name stands for in a directory. -/
def placeOf : Standpoint → Name → Except FileError Place
  | .removed _, _ => .error .notFound
  | .inTree place, name =>
    if nameLimit < name.val.utf8ByteSize then .error .nameTooLong else .ok (name :: place)

/-- Where the path that a link stands for starts, if the link is in the directory `here`. -/
def linkStart (target : String) (here : Standpoint) : Standpoint :=
  if (Path.mk target).isAbsolute then .root else here

/-- Goes the given steps.  What is done about a link is left to `follow`, which is told where the
link's path starts and what steps are to be gone then; `links` is the number of links that may
still be followed, and is returned with what the steps lead to. -/
def walkWith (t : Tree) (links : Nat)
    (follow : Standpoint → List Step → Except FileError (Nat × Standpoint)) (here : Standpoint) :
    List Step → Except FileError (Nat × Standpoint)
  | [] => .ok (links, here)
  | step :: rest =>
    if t.isDirectoryAt here then
      match step with
      | .stay => walkWith t links follow here rest
      | .up => walkWith t links follow here.around rest
      | .down name =>
        match placeOf here name with
        | .error e => .error e
        | .ok place =>
          match t.find? place with
          | none => .error .notFound
          | some (.link target) =>
            follow (linkStart target here) ((Path.mk target).steps ++ rest)
          | some _ => walkWith t links follow (.inTree place) rest
    else .error .notADirectory

/-- Goes the given steps, following at most the given number of links. -/
def walk (t : Tree) : Nat → Standpoint → List Step → Except FileError (Nat × Standpoint)
  | 0 => walkWith t 0 fun _ _ => .error .tooManyLinks
  | links + 1 => walkWith t (links + 1) (walk t links)

/-- Goes the given steps to a directory. -/
def walkToDirectory (t : Tree) (links : Nat) (here : Standpoint) (steps : List Step) :
    Except FileError (Nat × Standpoint) :=
  match t.walk links here steps with
  | .error e => .error e
  | .ok (left, directory) =>
    if t.isDirectoryAt directory then .ok (left, directory) else .error .notADirectory

/-- Refuses a text that no path may have. -/
def checkPath (p : Path) : Except FileError Unit :=
  if '\x00' ∈ p.text.toList then .error .nullInPath
  else if p.text = "" then .error .notFound
  else if pathLimit ≤ p.text.utf8ByteSize then .error .nameTooLong
  else .ok ()

/-- Where a path starts, if it is a path at all. -/
def start (t : Tree) (p : Path) : Except FileError Standpoint := do
  checkPath p
  return if p.isAbsolute then .root else t.working

/-- What a path leads to. -/
def resolve (t : Tree) (p : Path) : Except FileError Standpoint := do
  let here ← t.start p
  let (_, standpoint) ← t.walk linkLimit here p.steps
  return standpoint

/-- Whether a path leads anywhere. -/
def leadsSomewhere (t : Tree) (p : Path) : Bool := (t.resolve p).isOk

/-- What the last step of a path asks for. -/
inductive Spot
  /-- The entry at a place, with or without a slash after its name. -/
  | entry (place : Place) (slashEnded : Bool)
  /-- The directory that the path has come to. -/
  | same
  /-- The directory around that. -/
  | around
  /-- The root: there are no steps. -/
  | root
  deriving DecidableEq

/-- Where a path leads, but for the link that may be at its end. -/
def spot (t : Tree) (p : Path) : Except FileError Spot := do
  let here ← t.start p
  let (_, directory) ← t.walkToDirectory linkLimit here p.plainSteps.dropLast
  match p.plainSteps.getLast? with
  | some (.down name) => return .entry (← placeOf directory name) p.slashEnded
  | some .stay => return .same
  | some .up => return .around
  | none => return .root

/-! ## What is there -/

/-- The entry that a path names.  A link at its end is the entry, unless a slash follows. -/
def entryAt? (t : Tree) (p : Path) : Except FileError Node := do
  let found? ←
    match ← t.spot p with
    | .entry place false => pure (t.find? place)
    | _ => t.findAt? <$> t.resolve p
  match found? with
  | some node => return node
  | none => .error .notFound

/-- The size of an entry in bytes: of a link, that of the path it stands for, and of a directory,
that of one unit of storage. -/
def nodeSize : Node → Nat
  | .file contents => contents.size
  | .directory _ => 4096
  | .link target => target.utf8ByteSize

/-- The contents of the file that a path leads to. -/
def contentsAt (t : Tree) (p : Path) : Except FileError Contents := do
  match t.findAt? (← t.resolve p) with
  | some (.file contents) =>
    if contents.readable then return contents else .error .permissionDenied
  | some (.directory true) => .error .isADirectory
  | some (.directory false) => .error .permissionDenied
  | some (.link _) => .error .tooManyLinks
  | none => .error .notFound

/-- An entry in the listing of a directory. -/
structure Entry where
  name : Name
  kind : Kind

/-- The entries of the directory that a path leads to, in the order of their names. -/
def listDirectory (t : Tree) (p : Path) : Except FileError (List Entry) := do
  let standpoint ← t.resolve p
  match t.findAt? standpoint with
  | some (.directory true) =>
    let entries := (t.childrenAt standpoint).map fun (name, node) => Entry.mk name node.kind
    return entries.mergeSort fun a b => decide (a.name.val ≤ b.name.val)
  | some (.directory false) => .error .permissionDenied
  | _ => .error .notADirectory

end Tree

end ChangeTracking
