import ChangeTracking.CommandLine.Options
import ChangeTracking.Config
import ChangeTracking.Lsn.Text
import ChangeTracking.MapFile
import ChangeTracking.Report
import ChangeTracking.Scan
import ChangeTracking.Tracker

/-!
# Commands

A persisted map can be asked without a tracker: since when it has been watching, and what changed
since a baseline.  The commands only read; what they print, and how they fail, is their `Answer`.

A map that is missing or damaged is never taken for one without changes: both commands then say that
tracking is disabled.  Faulty arguments are reported before the map is looked at.
-/

namespace ChangeTracking.CommandLine

/-- What is asked of `pagemap`. -/
structure PagemapRequest where
  dataDirectory? : Option Path
  baseline? : Option String
  mapFile? : Option Path
  format : ReportFormat
  versionDirectory? : Option String

/-- What is asked for on a command line. -/
inductive Command
  /-- Nothing. -/
  | nothing
  /-- The version of the program. -/
  | programVersion
  /-- The version of the protocol. -/
  | version
  /-- The start of a persisted map's epoch. -/
  | epoch (dataDirectory? mapFile? : Option Path)
  /-- What changed since a baseline. -/
  | pagemap (request : PagemapRequest)

/-! ## Reading a command line -/

/-- A path among the options' values. -/
def Given.path? (given : Given) (o : Opt) : Option Path := (given.value? o).map Path.mk

/-- The request that options make. -/
def PagemapRequest.ofGiven (given : Given) : PagemapRequest where
  dataDirectory? := given.path? .dataDirectory
  baseline? := given.value? .baseline
  mapFile? := given.path? .mapFile
  format := if given.value? .format = some "json" then .json else .text
  versionDirectory? := given.value? .versionDirectory

/-- Whether there is help about a topic. -/
def hasHelp (topic : String) : Bool := ["version", "init-lsn", "pagemap", "help"].contains topic

/-- What a command line without the program's name asks for. -/
def Command.read : List String → Except Stop Command
  | [] => .ok .nothing
  | "help" :: topics =>
    match topics with
    | [] => .error .help
    | [topic] => .error (if hasHelp topic then .help else .usage)
    | _ => .error .usage
  | "version" :: words => do
    let _ ← readOptions [] words
    return .version
  | "init-lsn" :: words => do
    let given ← readOptions [.dataDirectory, .mapFile] words
    return .epoch (given.path? .dataDirectory) (given.path? .mapFile)
  | "pagemap" :: words => do
    let given ← readOptions [.dataDirectory, .baseline, .mapFile, .format, .versionDirectory] words
    return .pagemap (.ofGiven given)
  | text :: rest =>
    match Word.ofString text with
    | .endOfOptions => if rest.isEmpty then .ok .nothing else .error .usage
    | .long "help" none | .short 'h' _ => .error .help
    | .long "version" none | .short 'V' _ => .ok .programVersion
    | _ => .error .usage

/-! ## Carrying out commands -/

/-- The persisted map, of which nothing but its contents is wanted. -/
def savedMap (t : Tree) (p : Path) : Except Error ChangeMap :=
  match MapFile.load t p with
  | .ok (some m) => .ok m
  | _ => .error .disabled

/-- The start of the epoch of a persisted map. -/
def savedEpoch (t : Tree) (dataDirectory? mapFile? : Option Path) : Except Error Lsn :=
  match mapFile?, dataDirectory? with
  | some file, _ => (savedMap t file).map (·.epoch)
  | none, some data => (savedMap t (Config.ofDataDirectory data).mapLocation).map (·.epoch)
  | none, none => .error (.missingArgument .dataDirectory)

/-- The settings for a request. -/
def PagemapRequest.config (r : PagemapRequest) (data : Path) : Config :=
  { Config.ofDataDirectory data with
    mapFile? := r.mapFile?
    versionDirectory := r.versionDirectory?.getD Layout.defaultVersionDirectory }

/-- What changed since the baseline, as far as a persisted map can tell. -/
def changedPagemaps (t : Tree) (r : PagemapRequest) : Except Error (List Pagemap) := do
  match r.dataDirectory? with
  | none => .error (.missingArgument .dataDirectory)
  | some data =>
    match r.baseline? with
    | none => .error (.missingArgument .baseline)
    | some text =>
      let baseline ← Lsn.parse text
      let config := r.config data
      config.check
      let m ← savedMap t config.mapLocation
      let walker := Walker.ofDataDirectory config.versionDirectory config.dataDirectory
      ((Scan.ofWalker baseline walker).run t m).1.mapM id

/-- The name and version of the program. -/
def programVersionLine : String := "pbktrack 0.1.0\n"

/-- What comes of a command line. -/
inductive Answer
  /-- All went well, with this printed. -/
  | done (output : String)
  | failed (e : Error)
  | stopped (why : Stop)
  deriving DecidableEq

/-- Prints a text on a line of its own, unless it is empty. -/
def printed (text : String) : String := if text = "" then "" else text ++ "\n"

/-- The answer to a command. -/
def Command.run (t : Tree) : Command → Answer
  | .nothing => .done ""
  | .programVersion => .done programVersionLine
  | .version => .done (protocol ++ "\n")
  | .epoch data file =>
    match savedEpoch t data file with
    | .ok l => .done (l.render ++ "\n")
    | .error e => .failed e
  | .pagemap request =>
    match changedPagemaps t request with
    | .ok pagemaps => .done (printed (Pagemap.render request.format pagemaps))
    | .error e => .failed e

/-- The answer to a command line without the program's name. -/
def answer (t : Tree) (words : List String) : Answer :=
  match Command.read words with
  | .ok command => command.run t
  | .error why => .stopped why

end ChangeTracking.CommandLine
