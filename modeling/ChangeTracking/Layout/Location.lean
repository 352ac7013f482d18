import ChangeTracking.Layout.FileName
import ChangeTracking.Path

/-!
# Where relations are stored

Below the data directory, relations are stored in three places: those that all databases share in
`global`, those of the default tablespace in a directory of `base` for each database, and those of
other tablespaces behind links in `pg_tblspc`, in a directory for the version of the server and one
for the database in it.

`segmentPath` says where a segment file is, and `databaseAt?` what a directory that was copied into
place holds.
-/

namespace ChangeTracking.Layout

open Text

/-- The name of the version's directory in tablespaces, where nothing else is asked for. -/
def defaultVersionDirectory : String := "PG_16_202307071"

/-- A number as part of a path. -/
def oidText (oid : Oid) : String := String.ofList (decimal oid.toNat)

/-- The directory of a relation, below the data directory. -/
def relationDirectory (r : Relation) (version : String) : List String :=
  if r.tablespace = sharedTablespace then ["global"]
  else if r.tablespace = defaultTablespace then ["base", oidText r.database]
  else ["pg_tblspc", oidText r.tablespace, version, oidText r.database]

/-- The path of a segment file, below the data directory. -/
def segmentPath (r : Relation) (fork : Fork) (segment : UInt32) (version : String) : String :=
  "/".intercalate (relationDirectory r version ++ [(FileName.mk r.number fork segment).render])

/-- The tablespace and the database of a directory, by the names in its path below the data
directory.  Dots in the path are passed over. -/
def databaseAt? (path : Path) (version : String) : Option (Oid × Oid) :=
  match path.names with
  | "global" :: _ => some (sharedTablespace, noOid)
  | "base" :: database :: _ => (readOid? database.toList).map (defaultTablespace, ·)
  | "pg_tblspc" :: tablespace :: v :: database :: _ =>
    if v = version then do
      return (← readOid? tablespace.toList, ← readOid? database.toList)
    else none
  | _ => none

end ChangeTracking.Layout
