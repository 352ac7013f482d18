import ChangeTracking.Block
import ChangeTracking.Json.Printer
import ChangeTracking.Json.Reader
import ChangeTracking.Lsn.Text

/-!
# Blocks and positions in documents

A position is a string in its written form, and is read from a string in any form.  A fork is its
name, or an object whose only member has that name and the value `null`.  Relations and blocks are
records of their fields.
-/

namespace ChangeTracking

/-- A position in a document. -/
def Lsn.toJson (l : Lsn) : Json := .text l.render

/-- The position that a value stands for. -/
def Lsn.ofJson? (v : Json) : Option Lsn := v.text?.bind Lsn.read?

/-- A fork in a document. -/
def Fork.toJson (f : Fork) : Json := .text f.name

/-- The fork that a value stands for. -/
def Fork.ofJson? : Json → Option Fork
  | .string (some name) => ofName? name
  | .object [(some name, .null)] => ofName? name
  | _ => none

/-- A relation in a document. -/
def Relation.toJson (r : Relation) : Json :=
  .record [("spc_oid", .nat r.tablespace.toNat), ("db_oid", .nat r.database.toNat),
    ("rel_number", .nat r.number.toNat)]

/-- The relation that a value stands for. -/
def Relation.ofJson? (v : Json) : Option Relation :=
  match v.fields? ["spc_oid", "db_oid", "rel_number"] with
  | some [some tablespace, some database, some number] => do
    return ⟨← tablespace.word32?, ← database.word32?, ← number.word32?⟩
  | _ => none

/-- A block in a document. -/
def Block.toJson (b : Block) : Json :=
  .record [("locator", b.relation.toJson), ("fork", b.fork.toJson), ("block", .nat b.number.toNat)]

/-- The block that a value stands for. -/
def Block.ofJson? (v : Json) : Option Block :=
  match v.fields? ["locator", "fork", "block"] with
  | some [some relation, some fork, some number] => do
    return ⟨← Relation.ofJson? relation, ← Fork.ofJson? fork, ← number.word32?⟩
  | _ => none

end ChangeTracking
