import ChangeTracking.Tree.Lookup

/-!
# Changing a tree

The changes that programs make to a tree: a file is replaced as a whole or removed, directories are
made and removed, files are written in place, links are set.  A change that is one move either gives
the changed tree or says why there is none.  A change that takes several moves may stop in between,
so it gives an `Outcome`, which holds the tree after the moves that were made.

Where a file is replaced or removed, the system is asked whether it refuses that (`permit`).  Of the
other changes, by which a tree is set up, it refuses none.
-/

namespace ChangeTracking.Tree

/-- What becomes of a change that takes several moves. -/
structure Outcome where
  tree : Tree
  /-- Why the change stopped, if it is not complete. -/
  failure? : Option FileError

/-- The outcome of a change of the tree `t` that is one move. -/
def Outcome.ofMove (t : Tree) : Except FileError Tree → Outcome
  | .ok t' => ⟨t', none⟩
  | .error e => ⟨t, some e⟩

/-- Goes on with another move if the change has not stopped. -/
def Outcome.andThen (o : Outcome) (move : Tree → Except FileError Tree) : Outcome :=
  match o.failure? with
  | none => .ofMove o.tree (move o.tree)
  | some _ => o

/-! ## Files as wholes -/

/-- Asks whether the system refuses a modification at a place. -/
def permit (t : Tree) (what : Modification) (place : Place) : Except FileError Unit :=
  match t.refusal? what place.tail with
  | some e => .error e
  | none => .ok ()

/-- Asks whether a new file can be made by a path, and whether the contents can be written to it. -/
def permitFile (t : Tree) (p : Path) (contents : Contents) : Except FileError Unit := do
  match ← t.spot p with
  | .entry place _ =>
    t.permit .make place
    t.permit (.write contents) place
  | _ => .error .isADirectory

/-- Puts a new file at the place a path names, in one move: whoever looks sees the old file or the
new one.  A link there is replaced and not followed; a directory is not replaced. -/
def replaceFile (t : Tree) (p : Path) (contents : Contents) : Except FileError Tree := do
  match ← t.spot p with
  | .entry place slashEnded =>
    if slashEnded then .error .notADirectory
    else if t.isDirectory place then .error .isADirectory
    else
      t.permit .replace place
      return t.put place (.file contents)
  | _ => .error .busy

/-- Removes the file or link that a path names. -/
def removeFile (t : Tree) (p : Path) : Except FileError Tree := do
  match ← t.spot p with
  | .entry place slashEnded =>
    match t.find? place with
    | none => .error .notFound
    | some (.directory _) => .error .isADirectory
    | some _ =>
      if slashEnded then .error .notADirectory
      else
        t.permit .remove place
        return t.remove place
  | _ => .error .isADirectory

/-! ## Directories and links -/

/-- Makes one directory. -/
def makeDirectory (t : Tree) (p : Path) : Except FileError Tree := do
  match ← t.spot p with
  | .entry place _ =>
    if (t.find? place).isSome then .error .alreadyExists
    else return t.put place (.directory true)
  | _ => .error .alreadyExists

/-- Whether a path leads to a directory. -/
def leadsToDirectory (t : Tree) (p : Path) : Bool :=
  match t.resolve p with
  | .ok standpoint => t.isDirectoryAt standpoint
  | .error _ => false

/-- Makes a directory that may be there already. -/
def ensureDirectory (t : Tree) (p : Path) : Except FileError Tree :=
  match t.makeDirectory p with
  | .ok t' => .ok t'
  | .error e => if t.leadsToDirectory p then .ok t else .error e

/-- Makes the first of the given directories, of which each is around the one before it, and before
that those of the others that are not there. -/
def makeChain (t : Tree) : List Path → Outcome
  | [] => ⟨t, none⟩
  | p :: around =>
    match t.makeDirectory p with
    | .error .notFound => (makeChain t around).andThen (·.ensureDirectory p)
    | _ => .ofMove t (t.ensureDirectory p)

/-- Makes a directory and those around it, as far as they are not there. -/
def makeDirectories (t : Tree) (p : Path) : Outcome :=
  match p.stations.reverse with
  | [] => ⟨t, none⟩
  | _ :: around => t.makeChain (p :: around)

/-- Makes the directories around what a path names. -/
def makeParents (t : Tree) (p : Path) : Outcome :=
  match p.parent? with
  | some parent => t.makeDirectories parent
  | none => ⟨t, none⟩

/-- Sets a link. -/
def makeLink (t : Tree) (p : Path) (target : String) : Except FileError Tree := do
  if '\x00' ∈ p.text.toList then .error .nullInPath
  checkPath ⟨target⟩
  match ← t.spot p with
  | .entry place slashEnded =>
    if (t.find? place).isSome then .error .alreadyExists
    else if slashEnded then .error .notFound
    else return t.put place (.link target)
  | _ => .error .alreadyExists

/-! ## Removing whatever is there -/

/-- Removes a directory in which there is nothing. -/
def removeDirectory (t : Tree) (p : Path) : Except FileError Tree := do
  match ← t.spot p with
  | .entry place _ =>
    match t.find? place with
    | none => .error .notFound
    | some (.directory _) =>
      if (t.children place).isEmpty then return t.remove place else .error .notEmpty
    | some _ => .error .notADirectory
  | .same => .error .invalidArgument
  | .around => .error .notEmpty
  | .root => .error .busy

/-- The tree with nothing in the directory at a place. -/
def clear (t : Tree) (p : Place) : Tree :=
  (t.children p).foldl (fun t (name, _) => t.remove (name :: p)) t

/-- Removes what a path names, with all that is below it.  A directory is emptied first and removed
then.  That it cannot be found any more is no failure: the path may lead through what was in it. -/
def removeAll (t : Tree) (p : Path) : Outcome :=
  match t.entryAt? p with
  | .error e => ⟨t, some e⟩
  | .ok (.directory _) =>
    let cleared :=
      match t.resolve p with
      | .ok (.inTree place) => t.clear place
      | _ => t
    match cleared.removeDirectory p with
    | .error .notFound => ⟨cleared, none⟩
    | result => .ofMove cleared result
  | .ok _ => .ofMove t (t.removeFile p)

/-! ## Writing in place -/

/-- Where a file is made or overwritten that a path leads to from a standpoint.  Links are followed,
at most `links` of them and at most one at the end of a path in each turn; the last one may lead to
nothing yet. -/
def writePlace (t : Tree) : (turns links : Nat) → Standpoint → Path → Except FileError Place
  | 0, _, _, _ => .error .tooManyLinks
  | turns + 1, links, here, p => do
    let (left, directory) ← t.walkToDirectory links here p.plainSteps.dropLast
    match p.plainSteps.getLast?, p.slashEnded with
    | some (.down name), false =>
      let place ← placeOf directory name
      match t.find? place, left with
      | some (.directory _), _ => .error .isADirectory
      | some (.link _), 0 => .error .tooManyLinks
      | some (.link target), left + 1 =>
        writePlace t turns left (linkStart target directory) ⟨target⟩
      | _, _ => return place
    | _, _ => .error .isADirectory

/-- Gives the file that a path leads to the given contents, and makes it if it is not there.  Each
turn follows a link, so one turn more than links are allowed is enough. -/
def overwrite (t : Tree) (p : Path) (contents : Contents) : Except FileError Tree := do
  let here ← t.start p
  let place ← t.writePlace (linkLimit + 1) linkLimit here p
  return t.put place (.file contents)

end ChangeTracking.Tree
