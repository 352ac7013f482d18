import ChangeTracking.Text.Cut

/-!
# Options

The words after a command are options with values.  A long option is two dashes and a name, a short
one a dash and a letter; the value is the next word, or stands in the same word, after an equals
sign (which a short option does not need).  A word that starts with a dash is never taken for a
value, unless it is the dash alone.  Two dashes alone end the options.

Words are dealt with from left to right and the first fault or request for help decides.
-/

namespace ChangeTracking.CommandLine

/-- The options of all commands. -/
inductive Opt
  | dataDirectory
  | baseline
  | mapFile
  | format
  | versionDirectory
  deriving DecidableEq

namespace Opt

/-- The option's name after two dashes. -/
def long : Opt → String
  | dataDirectory => "pgdata"
  | baseline => "lsn"
  | mapFile => "map-file"
  | format => "format"
  | versionDirectory => "tablespace-version-dir"

/-- The option's letter after one dash. -/
def short? : Opt → Option Char
  | dataDirectory => some 'D'
  | _ => none

/-- Whether the option can have the value: paths are not empty, and formats are known. -/
def accepts (o : Opt) (value : String) : Bool :=
  match o with
  | dataDirectory | mapFile => value ≠ ""
  | format => value = "text" || value = "json"
  | baseline | versionDirectory => true

end Opt

/-- Why the words were not read to the end. -/
inductive Stop
  /-- Help was asked for. -/
  | help
  /-- The words are no proper use of the command. -/
  | usage
  deriving DecidableEq

/-- What a word is by its look. -/
inductive Word
  /-- Two dashes. -/
  | endOfOptions
  /-- A long option, with the text after the equals sign. -/
  | long (name : String) (value? : Option String)
  /-- A short option, with the text after the letter. -/
  | short (letter : Char) (rest : String)
  | plain (text : String)

/-- What a word is by its look. -/
def Word.ofString (text : String) : Word :=
  match text.toList with
  | ['-', '-'] => .endOfOptions
  | '-' :: '-' :: body =>
    match Text.cut '=' body with
    | some (name, value) => .long (String.ofList name) (some (String.ofList value))
    | none => .long (String.ofList body) none
  | '-' :: letter :: rest => .short letter (String.ofList rest)
  | _ => .plain text

/-- The values that options were given. -/
abbrev Given := List (Opt × String)

/-- Gives an option its value, which may happen once. -/
def give (given : Given) (o : Opt) (value : String) : Except Stop Given :=
  if given.any (·.1 = o) || !o.accepts value then .error .usage else .ok ((o, value) :: given)

/-- The value that stands behind a short option's letter. -/
def attached? (rest : String) : Option String :=
  match rest.toList with
  | [] => none
  | '=' :: value => some (String.ofList value)
  | _ => some rest

/-- Reads words, where `waiting` is the option whose value is the next word. -/
def readWords (allowed : List Opt) (given : Given) (waiting : Option Opt) :
    List String → Except Stop Given
  | [] => if waiting.isSome then .error .usage else .ok given
  | text :: rest =>
    match Word.ofString text, waiting with
    | .plain value, some o => do readWords allowed (← give given o value) none rest
    | .plain _, none => .error .usage
    | .endOfOptions, none => if rest.isEmpty then .ok given else .error .usage
    | .long "help" none, none => .error .help
    | .long name value?, none =>
      match allowed.find? (·.long = name), value? with
      | some o, some value => do readWords allowed (← give given o value) none rest
      | some o, none => readWords allowed given (some o) rest
      | none, _ => .error .usage
    | .short 'h' _, none => .error .help
    | .short letter attached, none =>
      match allowed.find? (·.short? = some letter), attached? attached with
      | some o, some value => do readWords allowed (← give given o value) none rest
      | some o, none => readWords allowed given (some o) rest
      | none, _ => .error .usage
    | _, some _ => .error .usage

/-- Reads the words after a command that has the given options. -/
def readOptions (allowed : List Opt) (words : List String) : Except Stop Given :=
  readWords allowed [] none words

/-- The value that an option was given. -/
def Given.value? (given : Given) (o : Opt) : Option String := given.lookup o

end ChangeTracking.CommandLine
