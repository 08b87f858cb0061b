import Offside.Settings.Basic
import Offside.Text.CodePoint

namespace Offside

/-!
# Loading settings

Settings come from the file that is asked for, else from the one that the variable
names, else from the file of the user; without any they are the defaults.  A few loaded
settings are kept, the least recently used going first.
-/

namespace Settings

/-- The settings file of the user. -/
def userPath (home : Path) : Path :=
  home.append [".config", "eucalyptus", "config.yaml"]

/-- The path of a file that has to be there; without it there is an error. -/
def named (surroundings : Surroundings) (missing : Text → SettingsError) (text : Text) :
    Except SettingsError Path :=
  match (Path.ofText text).expanded surroundings.homeOf with
  | none => .error .noHome
  | some path =>
      if (surroundings.find? path).isSome then .ok path else .error (missing path.text)

/-- The file to load settings from, if any. -/
def locate (surroundings : Surroundings) (explicit : Option Text) :
    Except SettingsError (Option Path) :=
  match explicit, surroundings.settingsFile with
  | some text, _ => (named surroundings .missingFile text).map some
  | none, some (first :: rest) =>
      (named surroundings .missingVariable (first :: rest)).map some
  | none, _ =>
      match surroundings.homeOf [] with
      | none => .error .noHome
      | some home =>
          let path := userPath home
          match surroundings.find? path with
          | some (.file _) => .ok (some path)
          | _ => .ok none

/-- Whether a key is a name. -/
def isNamed (name : String) : Datum → Bool
  | .text key => key == Text.ofString name
  | _ => false

/-- The value of a name in a mapping. -/
def setting? (entries : List (Datum × Datum)) (name : String) : Option Datum :=
  (entries.find? fun entry => isNamed name entry.1).map (·.2)

/-- Whether a key is the name of a setting. -/
def isSetting (key : Datum) : Bool :=
  isNamed "max_call_depth" key || isNamed "filename" key

/-- The settings that a document at a path gives. -/
def ofDatum (path : Path) : Datum → Except SettingsError Settings
  | .null => .ok default
  | .mapping entries =>
      match (entries.map (·.1)).filter (!isSetting ·) with
      | [] => make (setting? entries "max_call_depth") (setting? entries "filename")
      | unknown => .error (.unknownKeys path.text (Text.sorted (unknown.map Datum.shown)))
  | _ => .error (.notMapping path.text)

/-- Reads the settings file at a path. -/
def read (surroundings : Surroundings) (path : Path) : Except SettingsError Settings :=
  match surroundings.find? path with
  | none => .error (.missingFile path.text)
  | some entry =>
      match entry.text path with
      | .error error => .error (.unreadable error)
      | .ok text =>
          match surroundings.readDocument text with
          | .error error => .error (.malformed error)
          | .ok datum => ofDatum path datum

/-- Loads the settings. -/
def load (surroundings : Surroundings) (explicit : Option Text) :
    Except SettingsError Settings := do
  match ← locate surroundings explicit with
  | some path => read surroundings path
  | none => return default

end Settings

/-- Loaded settings, by the file that was asked for and the variable at that time; the
most recently used come first. -/
structure SettingsCache where
  entries : List ((Option Text × Option Text) × Settings)

namespace SettingsCache

/-- The cache with nothing in it. -/
def empty : SettingsCache :=
  ⟨[]⟩

/-- How many settings are kept. -/
def capacity : Nat :=
  8

/-- Loads settings through the cache; only settings that could be loaded are kept. -/
def load (cache : SettingsCache) (surroundings : Surroundings) (explicit : Option Text) :
    Except SettingsError Settings × SettingsCache :=
  let key := (explicit, surroundings.settingsFile)
  match cache.entries.lookup key with
  | some settings =>
      (.ok settings, ⟨(key, settings) :: cache.entries.filter (·.1 != key)⟩)
  | none =>
      match Settings.load surroundings explicit with
      | .error error => (.error error, cache)
      | .ok settings => (.ok settings, ⟨((key, settings) :: cache.entries).take capacity⟩)

end SettingsCache

end Offside
