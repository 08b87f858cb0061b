import Offside.Files
import Offside.Settings.Datum

namespace Offside

/-!
# Settings

The settings of an interpreter: how deep calls may nest, and the file name that
reports show.  They are read from a document, whose language is not of this library: what
reads it is part of the surroundings.
-/

/-- The settings of an interpreter. -/
structure Settings where
  maxCallDepth : Nat
  fileName : Datum

/-- Why a document cannot be read, in the words of its reader, and whether this is among the
errors that a job reports. -/
structure DocumentError where
  message : Text
  isReported : Bool
deriving Repr, DecidableEq

/-- What a program sees of its surroundings: the entries at paths, the settings file that
a variable names, the homes of users (the user that has no name here is the one who runs
the program), and a reader of documents. -/
structure Surroundings where
  find? : Path → Option FileEntry
  settingsFile : Option Text
  homeOf : Text → Option Path
  readDocument : Text → Except DocumentError Datum

/-- Why settings are refused. -/
inductive SettingsError where
  | depthNotInteger (found : Datum)
  | depthNotPositive (found : Int)
  | missingFile (path : Text)
  | missingVariable (path : Text)
  | notMapping (path : Text)
  | unknownKeys (path : Text) (keys : List Text)
  | unreadable (error : FileError)
  | noHome
  | malformed (error : DocumentError)

namespace SettingsError

/-- The wording of an error. -/
def message : SettingsError → Text
  | .depthNotInteger found => "max_call_depth must be an integer, got " ++ found.dumped
  | .depthNotPositive found => "max_call_depth must be positive, got " ++ Text.ofInt found
  | .missingFile path => "Config file not found: " ++ path
  | .missingVariable path => "EUCALYPTUS_CONFIG points to a missing file: " ++ path
  | .notMapping path => "Invalid config format in " ++ path ++ ": expected mapping at root"
  | .unknownKeys path keys =>
      "Unknown config keys in " ++ path ++ ": " ++ Text.join ", " keys
  | .unreadable error => error.message
  | .noHome => "Could not determine home directory."
  | .malformed error => error.message

/-- Whether a job reports an error; it crashes on the others. -/
def isReported : SettingsError → Bool
  | .noHome => false
  | .malformed error => error.isReported
  | _ => true

end SettingsError

namespace Settings

/-- The settings that hold when none are given. -/
def default : Settings :=
  ⟨128, .null⟩

/-- A call depth: a positive integer. -/
def callDepth : Datum → Except SettingsError Nat
  | .int value => if 0 < value then .ok value.toNat else .error (.depthNotPositive value)
  | other => .error (.depthNotInteger other)

/-- Settings from the data that are given; a missing one has its default. -/
def make (depth fileName : Option Datum) : Except SettingsError Settings := do
  let maxCallDepth ←
    match depth with
    | some datum => callDepth datum
    | none => pure default.maxCallDepth
  return ⟨maxCallDepth, fileName.getD .null⟩

/-- The settings with another file name. -/
def withFileName (settings : Settings) (fileName : Datum) : Settings :=
  { settings with fileName }

/-- The file name in reports. -/
def file (settings : Settings) : Option Text :=
  settings.fileName.fileName?

end Settings

end Offside
