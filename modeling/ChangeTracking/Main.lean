import ChangeTracking.CommandLine.Command

/-!
# The program

The command line over the real directory tree.  What a command may look at (the data directory, the
tablespaces that are linked from it, and the persisted map) is taken up into a `Tree`, with every
path in its canonical form; the command is then answered on that tree.  Of segment files only the
sizes are taken up.
-/

namespace ChangeTracking.CommandLine

/-- The tree after a change, or as it was if the change cannot be made. -/
def changed (t : Tree) : Except FileError Tree → Tree
  | .ok t' => t'
  | .error _ => t

/-- The canonical form of a path, or the path itself if it leads nowhere. -/
def canonical (path : String) : IO String := do
  match ← (IO.FS.realPath path).toBaseIO with
  | .ok real => return real.toString
  | .error _ => return path

/-- Takes up a directory, given by its canonical path, going down at most `levels` levels.  Links
are taken up with what they lead to. -/
def takeUp : (levels : Nat) → (path : String) → Tree → IO Tree
  | 0, _, t => return t
  | levels + 1, path, t => do
    match ← (do (← IO.FS.realPath path).readDir).toBaseIO with
    | .error _ => return t
    | .ok entries =>
      let mut t := (t.makeDirectories ⟨path⟩).tree
      for entry in entries do
        let place : Path := (Path.mk path).join entry.fileName
        match ← entry.path.symlinkMetadata.toBaseIO with
        | .error _ => pure ()
        | .ok found =>
          match found.type with
          | .dir => t ← takeUp levels place.text t
          | .file => t := changed t (t.overwrite place (.zeros found.byteSize.toNat))
          | .symlink =>
            let target ← canonical place.text
            t := changed t (t.makeLink place target)
            if !t.leadsSomewhere ⟨target⟩ then t ← takeUp levels target t
          | .other => pure ()
      return t

/-- Takes up a persisted map, given by its canonical path.  If it cannot be read, it is taken up as
what keeps it from that: a directory, or a file that is not readable. -/
def takeUpMap (p : Path) (t : Tree) : IO Tree := do
  match ← (IO.FS.readBinFile p.text).toBaseIO with
  | .ok bytes =>
    let t := (t.makeParents p).tree
    return changed t (t.overwrite p (.ofBytes bytes.toList))
  | .error _ =>
    match ← (do (← IO.FS.realPath p.text).metadata).toBaseIO with
    | .error _ => return t
    | .ok found =>
      match found.type with
      | .dir => return (t.makeDirectories p).tree
      | .file =>
        let t := (t.makeParents p).tree
        return changed t (t.overwrite p { Contents.zeros 0 with readable := false })
      | _ => return t

/-- A path with its text in canonical form. -/
def canonicalPath? (p? : Option Path) : IO (Option Path) :=
  match p? with
  | some p => return some ⟨← canonical p.text⟩
  | none => return none

/-- A command with canonical paths, and the tree on which it is to be answered. -/
def prepare : Command → IO (Command × Tree)
  | .epoch data? file? => do
    let data? ← canonicalPath? data?
    let file? ← canonicalPath? file?
    let map? := file? <|> data?.map fun data => (Config.ofDataDirectory data).mapLocation
    match map? with
    | some p => return (.epoch data? file?, ← takeUpMap p .empty)
    | none => return (.epoch data? file?, .empty)
  | .pagemap request => do
    let request :=
      { request with
        dataDirectory? := ← canonicalPath? request.dataDirectory?
        mapFile? := ← canonicalPath? request.mapFile? }
    match request.dataDirectory? with
    | some data =>
      let t ← takeUp Tree.pathLimit data.text .empty
      return (.pagemap request, ← takeUpMap (request.config data).mapLocation t)
    | none => return (.pagemap request, .empty)
  | command => return (command, .empty)

/-- How the program is used. -/
def usageText : String :=
  "Usage: pbktrack [version | init-lsn | pagemap | help]\n\n"
    ++ "  version   print the version of the change tracking protocol\n"
    ++ "  init-lsn  print the position the persisted map starts tracking from\n"
    ++ "            -D, --pgdata DIR   --map-file FILE\n"
    ++ "  pagemap   list the blocks changed since a position, a bitmap for each segment file\n"
    ++ "            -D, --pgdata DIR   --lsn LSN   --map-file FILE   --format text|json\n"
    ++ "            --tablespace-version-dir NAME\n"

/-- Prints an answer and gives the exit code. -/
def report : Answer → IO UInt32
  | .done output => do
    IO.print output
    return 0
  | .failed e => do
    IO.eprintln ("pbktrack error: " ++ e.message)
    return 1
  | .stopped .help => do
    IO.print usageText
    return 0
  | .stopped .usage => do
    IO.eprint usageText
    return 2

/-- Answers a command line without the program's name. -/
def runProgram (words : List String) : IO UInt32 :=
  match Command.read words with
  | .error why => report (.stopped why)
  | .ok command => do
    let (command, t) ← prepare command
    report (command.run t)

end ChangeTracking.CommandLine

/-- The program. -/
def main (words : List String) : IO UInt32 :=
  ChangeTracking.CommandLine.runProgram words
