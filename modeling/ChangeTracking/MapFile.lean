import ChangeTracking.ChangeMap.Image
import ChangeTracking.Tree.Edit

/-!
# Change maps on disk

A map is kept as one file that holds its image.  The image is written to a new file in the same
directory, which then takes the place of the old one, so that the old map stays readable until the
new one is there.
-/

namespace ChangeTracking.MapFile

/-- What was written. -/
structure Written where
  slots : Nat
  markedCount : Nat
  bytes : Nat
  deriving DecidableEq

/-- What is written for a map. -/
def Written.ofMap (m : ChangeMap) : Written :=
  ⟨m.slotCount, m.markedCount, ChangeMap.headerBytes + m.capacity⟩

/-- The path of the directory that holds the map's file. -/
def directoryPath (p : Path) : Path :=
  match p.parent? with
  | some parent => if parent.text = "" then ⟨"."⟩ else parent
  | none => ⟨"."⟩

/-- The path of a file that the image is written to first, in the directory of the map's file.  It is
an absolute path, so there is none if the directory is to be found from a current directory that is
not in the tree. -/
def temporaryPath (t : Tree) (p : Path) : Except FileError Path :=
  let directory := directoryPath p
  if directory.isAbsolute then .ok (directory.join ".tmp000000")
  else
    match t.workingPath? with
    | some working => .ok ((working.join directory.text).join ".tmp000000")
    | none => .error .notFound

/-- Keeps a map in the file that a path names. -/
def save (t : Tree) (p : Path) (m : ChangeMap) : Except FileError Tree := do
  let contents := Contents.ofBytes m.toImage
  t.permitFile (← temporaryPath t p) contents
  t.replaceFile p contents

/-- The map in a file's contents. -/
def ofContents (contents : Contents) : Except Corruption ChangeMap :=
  ChangeMap.ofImage
    (contents.firstBytes (ChangeMap.decisiveSize (contents.firstBytes ChangeMap.headerBytes)))

/-- The map in the file that a path leads to, if there is a file. -/
def load (t : Tree) (p : Path) : Except Error (Option ChangeMap) :=
  match t.contentsAt p with
  | .error .notFound => .ok none
  | .error e => .error (.file e)
  | .ok contents =>
    match ofContents contents with
    | .ok m => .ok (some m)
    | .error e => .error (.corrupt e)

/-- Deletes the file that a path names, if there is one. -/
def delete (t : Tree) (p : Path) : Except FileError Tree :=
  match t.removeFile p with
  | .error .notFound => .ok t
  | result => result

end ChangeTracking.MapFile
