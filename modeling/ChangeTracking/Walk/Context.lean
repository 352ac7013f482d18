import ChangeTracking.Layout.Segment
import ChangeTracking.Tree.Lookup

/-!
# What the entries of a data directory are

What an entry means follows from where it is.  A *context* says which tablespace and database a
directory belongs to, as far as that is known, and decides about its entries:

* a file is a segment file if its name is one and the database is known, or the tablespace is the
  shared one;
* a directory named by a number is a database, where none is known yet, and one with the version's
  name leads on inside a tablespace;
* a link named by a number is a tablespace, where nothing is known yet;
* whatever has the name of a temporary relation's file is passed over.
-/

namespace ChangeTracking

open Layout

/-- What is known about a directory: its tablespace and its database, `noOid` where not. -/
structure Context where
  tablespace : Oid
  database : Oid
  deriving DecidableEq

namespace Context

/-- Nothing is known. -/
def unknown : Context := ⟨noOid, noOid⟩

/-- Whether files in the directory can be segment files. -/
def hasSegments (s : Context) : Bool :=
  s.database ≠ noOid || s.tablespace = sharedTablespace

/-- The tablespace of the files in the directory: the default one where none is known. -/
def fileTablespace (s : Context) : Oid :=
  if s.tablespace = noOid then defaultTablespace else s.tablespace

end Context

/-- The context of the entries of a directory or link, if the walk goes there. -/
def Context.enter? (context : Context) (version name : String) : Kind → Option Context
  | .file => none
  | .directory =>
    match readOid? name.toList with
    | some database =>
      if context.database = noOid then some ⟨context.tablespace, database⟩
      else if context.tablespace ≠ noOid ∧ name = version then
        some ⟨context.tablespace, noOid⟩
      else none
    | none =>
      if context.tablespace ≠ noOid ∧ name = version then some ⟨context.tablespace, noOid⟩
      else none
  | .link =>
    if context = .unknown then (readOid? name.toList).map (⟨·, noOid⟩) else none

namespace Walk

/-- What the walk does about an entry. -/
inductive Finding
  | skip
  | file (segment : Segment)
  | enter (context : Context)

/-- Looks at an entry of the directory `dir`. -/
def lookAt (t : Tree) (version : String) (dir : Path) (context : Context) (e : Tree.Entry) :
    Finding :=
  let name := e.name.val
  if isTemporaryName name then .skip
  else if e.kind = .file then
    if context.hasSegments then
      match FileName.read? name, t.entryAt? (dir.join name) with
      | some n, .ok node =>
        let relation : Relation := ⟨context.fileTablespace, context.database, n.number⟩
        .file
          { relation := relation
            fork := n.fork
            index := n.segment
            path := dir.join name
            relativePath := segmentPath relation n.fork n.segment version
            size := Tree.nodeSize node }
      | _, _ => .skip
    else .skip
  else
    match context.enter? version name e.kind with
    | some inner => .enter inner
    | none => .skip

end Walk

end ChangeTracking
