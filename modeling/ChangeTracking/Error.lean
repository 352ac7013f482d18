import ChangeTracking.Text.Numeral
import ChangeTracking.Text.Quoted

/-!
# What can go wrong

Every failure is a cause, and the wording of each cause is in one `message` function.  There are
three layers: what the directory tree refuses (`FileError`), what makes an image no change map
(`Corruption`), and what a caller of the library is told (`Error`).
-/

namespace ChangeTracking

open Text

/-! ## The directory tree -/

/-- Why an operation on the directory tree failed. -/
inductive FileError
  | notFound
  | inputOutput
  | permissionDenied
  | busy
  | alreadyExists
  | notADirectory
  | isADirectory
  | invalidArgument
  | storageFull
  | readOnly
  | nameTooLong
  | notEmpty
  | tooManyLinks
  /-- The path holds a null character, so that no tree is asked. -/
  | nullInPath
  deriving DecidableEq

namespace FileError

/-- The number of the failure, where the system has one for it. -/
def code? : FileError → Option Nat
  | notFound => some 2
  | inputOutput => some 5
  | permissionDenied => some 13
  | busy => some 16
  | alreadyExists => some 17
  | notADirectory => some 20
  | isADirectory => some 21
  | invalidArgument => some 22
  | storageFull => some 28
  | readOnly => some 30
  | nameTooLong => some 36
  | notEmpty => some 39
  | tooManyLinks => some 40
  | nullInPath => none

/-- The failure in words. -/
def description : FileError → String
  | notFound => "No such file or directory"
  | inputOutput => "Input/output error"
  | permissionDenied => "Permission denied"
  | busy => "Device or resource busy"
  | alreadyExists => "File exists"
  | notADirectory => "Not a directory"
  | isADirectory => "Is a directory"
  | invalidArgument => "Invalid argument"
  | storageFull => "No space left on device"
  | readOnly => "Read-only file system"
  | nameTooLong => "File name too long"
  | notEmpty => "Directory not empty"
  | tooManyLinks => "Too many levels of symbolic links"
  | nullInPath => "file name contained an unexpected NUL byte"

/-- The failure in words, with its number. -/
def message (e : FileError) : String :=
  match e.code? with
  | some code => e.description ++ " (os error " ++ String.ofList (decimal code) ++ ")"
  | none => e.description

end FileError

/-! ## Images of change maps -/

/-- Why a string of bytes is no image of a change map. -/
inductive Corruption
  | shortHeader
  | badMagic
  | unsupportedVersion (version : UInt32)
  | slotCountOutOfRange (count : UInt64)
  | shortSlotArray (count : UInt64)
  | trailingData
  | checksumMismatch (stored computed : UInt32)
  deriving DecidableEq

namespace Corruption

/-- A checksum with all its eight digits. -/
def checksumText (w : UInt32) : String :=
  "0x" ++ String.ofList (lowerHex 8 w.toNat)

/-- The reason in words. -/
def reason : Corruption → String
  | shortHeader => "short header"
  | badMagic => "bad magic"
  | unsupportedVersion v => "unsupported version " ++ String.ofList (decimal v.toNat)
  | slotCountOutOfRange n => "slot count " ++ String.ofList (decimal n.toNat) ++ " out of range"
  | shortSlotArray n =>
    "short slot array: expected " ++ String.ofList (decimal n.toNat) ++ " slots"
  | trailingData => "trailing data after slot array"
  | checksumMismatch stored computed =>
    "checksum mismatch: stored " ++ checksumText stored ++ ", computed " ++ checksumText computed

end Corruption

/-! ## What callers are told -/

/-- A setting that no tracker accepts. -/
inductive ConfigFault
  | emptyDataDirectory
  | badVersionDirectory (name : String)
  deriving DecidableEq

/-- The setting's fault in words. -/
def ConfigFault.message : ConfigFault → String
  | emptyDataDirectory => "data_dir must not be empty"
  | badVersionDirectory name => "invalid tablespace_version_dir: " ++ quoted name

/-- An argument without which a command cannot run. -/
inductive RequiredArgument
  | dataDirectory
  | baseline
  deriving DecidableEq

/-- The argument's name on the command line. -/
def RequiredArgument.name : RequiredArgument → String
  | dataDirectory => "pgdata"
  | baseline => "lsn"

/-- Why a request to the library failed. -/
inductive Error
  | disabled
  | corrupt (cause : Corruption)
  | invalidMapSize (requested : UInt64)
  | invalidLsn (text : String)
  | invalidConfig (fault : ConfigFault)
  | malformedDocument
  | file (cause : FileError)
  | missingArgument (argument : RequiredArgument)
  deriving DecidableEq

/-- The failure in words. -/
def Error.message : Error → String
  | disabled => "change tracking is disabled"
  | corrupt cause => "change map is corrupt: " ++ cause.reason
  | invalidMapSize n =>
    "invalid change map size " ++ String.ofList (decimal n.toNat)
      ++ " bytes (allowed: 0 or 8..=34359738368)"
  | invalidLsn text => "invalid LSN: " ++ text
  | invalidConfig fault => "invalid configuration: " ++ fault.message
  | malformedDocument => "serialization error"
  | file cause => cause.message
  | missingArgument a => "cli error: " ++ a.name ++ " is required"

end ChangeTracking
