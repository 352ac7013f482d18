/-!
# Blocks of relations

A relation is stored as forks, a fork as blocks of `blockSize` bytes, and the blocks of a fork are
spread over segment files of `blocksPerSegment` blocks.  A block is named by its relation (the
tablespace, the database and the relation's own number), its fork and its number in the fork,
counted through all segments.
-/

namespace ChangeTracking

/-- The number of an object: a tablespace, a database or a relation. -/
abbrev Oid := UInt32

/-- Stands for "not known yet", and for the database of a relation that all databases share. -/
def noOid : Oid := 0

/-- The tablespace of the relations below `base`. -/
def defaultTablespace : Oid := 1663

/-- The tablespace of the relations that all databases share, below `global`. -/
def sharedTablespace : Oid := 1664

/-- Bytes in a block. -/
def blockSize : Nat := 8192

/-- Blocks in a full segment file. -/
def blocksPerSegment : Nat := 131072

/-- The forks of a relation. -/
inductive Fork
  | main
  | freeSpace
  | visibility
  | init
  deriving DecidableEq

namespace Fork

/-- The fork's place among the forks. -/
def index : Fork → UInt64
  | main => 0
  | freeSpace => 1
  | visibility => 2
  | init => 3

/-- What a file name says about the fork; the main fork goes without saying. -/
def fileSuffix? : Fork → Option String
  | main => none
  | freeSpace => some "fsm"
  | visibility => some "vm"
  | init => some "init"

/-- The fork that a file name means by its suffix, or by having none. -/
def ofFileSuffix? : Option String → Option Fork
  | none => some main
  | some "fsm" => some freeSpace
  | some "vm" => some visibility
  | some "init" => some init
  | some _ => none

/-- The fork's name in documents. -/
def name : Fork → String
  | main => "main"
  | freeSpace => "fsm"
  | visibility => "vm"
  | init => "init"

/-- The fork of a given name. -/
def ofName? : String → Option Fork
  | "main" => some main
  | "fsm" => some freeSpace
  | "vm" => some visibility
  | "init" => some init
  | _ => none

end Fork

/-- A relation: where it is stored and its number there. -/
structure Relation where
  tablespace : Oid
  database : Oid
  number : Oid
  deriving DecidableEq

/-- One block of one fork of a relation, numbered through all segments of the fork. -/
structure Block where
  relation : Relation
  fork : Fork
  number : UInt32
  deriving DecidableEq

end ChangeTracking
