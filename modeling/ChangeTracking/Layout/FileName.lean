import ChangeTracking.Block
import ChangeTracking.Text.Cut
import ChangeTracking.Text.Numeral

/-!
# Names of relation files

A segment file is named by its relation's number, the fork behind an underscore unless it is the
main fork, and the number of the segment behind a dot unless it is the first:
`16384`, `16384_fsm`, `16384.2`, `16384_vm.1`.  Files of temporary relations have the letter `t`,
digits and an underscore in front, and are never tracked.  Numbers are digits only; those of
relations and segments fit into 32 bits, and the digits of a temporary file's name may be any.
-/

namespace ChangeTracking.Layout

open Text

/-- Whether a text is one or more digits. -/
def allDigits (text : List Char) : Bool :=
  !text.isEmpty && text.all fun c => decide ('0' ≤ c ∧ c ≤ '9')

/-- The number of an object, written in digits. -/
def readOid? (text : List Char) : Option Oid :=
  (readNumeral? 10 text).bind fun n => if n < UInt32.size then some (UInt32.ofNat n) else none

/-- A name taken apart: what stands before the fork, the fork, and the number of the segment. -/
def splitName? (name : List Char) : Option (List Char × Fork × UInt32) := do
  let (stem, segment) ←
    match cut '.' name with
    | some (stem, digits) => (readOid? digits).map (stem, ·)
    | none => some (name, 0)
  let (body, fork) ←
    match cut '_' stem with
    | some (body, suffix) => (Fork.ofFileSuffix? (some (String.ofList suffix))).map (body, ·)
    | none => some (stem, Fork.main)
  return (body, fork, segment)

/-- What the name of a segment file says. -/
structure FileName where
  number : Oid
  fork : Fork
  segment : UInt32
  deriving DecidableEq

/-- Reads the name of a segment file. -/
def FileName.read? (name : String) : Option FileName := do
  let (body, fork, segment) ← splitName? name.toList
  return ⟨← readOid? body, fork, segment⟩

/-- Whether this is the name of a temporary relation's file. -/
def isTemporaryName (name : String) : Bool :=
  match name.toList with
  | 't' :: rest =>
    match cut '_' rest with
    | some (owner, relation) =>
      allDigits owner && (splitName? relation).any fun (body, _, _) => allDigits body
    | none => false
  | _ => false

/-- The name of a segment file. -/
def FileName.render (n : FileName) : String :=
  let fork := match n.fork.fileSuffix? with
    | some suffix => '_' :: suffix.toList
    | none => []
  let segment := if n.segment = 0 then [] else '.' :: decimal n.segment.toNat
  String.ofList (decimal n.number.toNat ++ fork ++ segment)

end ChangeTracking.Layout
