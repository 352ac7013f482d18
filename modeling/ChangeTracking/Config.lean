import ChangeTracking.ChangeMap
import ChangeTracking.Json.Printer
import ChangeTracking.Json.Reader
import ChangeTracking.Layout.Location
import ChangeTracking.Tree.Lookup

/-!
# The settings of a tracker

Where the data is, how large the change map is to be, what the version's directory in tablespaces is
called, and where the map is kept.  A size of zero turns tracking off.  Settings are read from a
document, in which only the data directory has to be given.
-/

namespace ChangeTracking

/-- The settings of a tracker. -/
structure Config where
  dataDirectory : Path
  /-- The size of the change map in bytes; zero for no tracking. -/
  mapSize : UInt64
  /-- The name of the version's directory in tablespaces. -/
  versionDirectory : String
  /-- Where the map is kept, if not below the data directory. -/
  mapFile? : Option Path
  deriving DecidableEq

namespace Config

/-- The settings for a data directory, where nothing else is asked for. -/
def ofDataDirectory (data : Path) : Config := ⟨data, 0, Layout.defaultVersionDirectory, none⟩

/-- Whether tracking is asked for. -/
def tracks (c : Config) : Bool := c.mapSize != 0

/-- The name of the map's file. -/
def mapFileName : String := "pbktrack.map"

/-- Where the map is kept. -/
def mapLocation (c : Config) : Path :=
  c.mapFile?.getD ((c.dataDirectory.join "global").join mapFileName)

/-- Whether a name can be that of the version's directory. -/
def goodVersionDirectory (name : String) : Bool :=
  name ≠ "" && !name.toList.contains '/'

/-- Whether a tracker accepts the settings.  The first fault counts. -/
def check (c : Config) : Except Error Unit :=
  if c.dataDirectory.text = "" then .error (.invalidConfig .emptyDataDirectory)
  else if !goodVersionDirectory c.versionDirectory then
    .error (.invalidConfig (.badVersionDirectory c.versionDirectory))
  else if c.tracks then (slotsFor c.mapSize).map fun _ => ()
  else .ok ()

/-! ## Settings in documents -/

/-- The names of the fields. -/
def fieldNames : List String := ["data_dir", "map_size", "tablespace_version_dir", "map_file"]

/-- The settings in a document; a map file is only named if there is one. -/
def toJson (c : Config) : Json :=
  .record ([("data_dir", .text c.dataDirectory.text), ("map_size", .nat c.mapSize.toNat),
      ("tablespace_version_dir", .text c.versionDirectory)]
    ++ c.mapFile?.toList.map fun p => ("map_file", .text p.text))

/-- A map file, which may be left out in two ways. -/
def mapFileOf? : Option Json → Option (Option Path)
  | none | some .null => some none
  | some v => v.text?.map fun text => some ⟨text⟩

/-- The settings that a value stands for. -/
def ofJson? (v : Json) : Option Config :=
  match v.fields? fieldNames with
  | some [some data, size, version, file] => do
    let data ← data.text?
    let size ← size.elim (some 0) Json.word64?
    let version ← version.elim (some Layout.defaultVersionDirectory) Json.text?
    return ⟨⟨data⟩, size, version, ← mapFileOf? file⟩
  | _ => none

/-- The settings in a file's contents. -/
def read (contents : Bytes) : Except Error Config := do
  match (Json.parse? (Text.decodeUtf8 contents)).bind ofJson? with
  | some c =>
    c.check
    return c
  | none => .error .malformedDocument

/-- The settings in the file that a path leads to. -/
def load (t : Tree) (p : Path) : Except Error Config :=
  match t.contentsAt p with
  | .ok contents => read contents.toBytes
  | .error e => .error (.file e)

end Config

end ChangeTracking
