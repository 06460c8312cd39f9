import MeshNode.Settings.Environment

/-!
# Settings in files

Reading settings from a file and writing them to one. A missing file stands for the
defaults, and reading never changes a file.
-/

namespace MeshNode

open MeshNode.Text

/-- Why settings could not be read, written or used. -/
inductive SettingsError
  | unreadable (path : String) (cause : FileError)
  | malformed (path : String)
  | unwritable (path : String) (cause : FileError)
  | unprintable
  | invalid (cause : InvalidSettings)
deriving DecidableEq

/-- The wording of a settings error. -/
def SettingsError.message : SettingsError → String
  | .unreadable path cause => s!"failed to read {path}: {cause.message}"
  | .malformed path => s!"failed to parse {path}"
  | .unwritable path cause => s!"failed to write {path}: {cause.message}"
  | .unprintable => "failed to serialize: out-of-range value for u64 type"
  | .invalid cause => s!"invalid config: {cause.message}"

namespace Settings

/-- The settings in a file. -/
def loadFrom (files : FileTree) (path : String) : Except SettingsError Settings :=
  if !files.pathExists path then .ok {}
  else
    match files.readText path with
    | .error cause => .error (.unreadable path cause)
    | .ok text =>
      match parse? text with
      | some s => .ok s
      | none => .error (.malformed path)

/-- The settings in the settings file, with those that the environment overrides. -/
def load (env : Environment) (files : FileTree) : Except SettingsError Settings :=
  (loadFrom files (filePath env)).map (override env)

/-- Writes settings to a file, and makes the directories on the way to it. -/
def writeTo (s : Settings) (files : FileTree) (path : String) :
    FileTree × Except SettingsError Unit :=
  match files.makeParents path with
  | (files, .error cause) => (files, .error (.unwritable path cause))
  | (files, .ok ()) =>
    match s.render? with
    | none => (files, .error .unprintable)
    | some text =>
      match files.write path (utf8 text) with
      | .error cause => (files, .error (.unwritable path cause))
      | .ok files => (files, .ok ())

/-- Writes the default settings unless there is a settings file; the path of that file. -/
def writeDefault (env : Environment) (files : FileTree) :
    FileTree × Except SettingsError String :=
  let path := filePath env
  if files.pathExists path then (files, .ok path)
  else
    let (files, result) := writeTo {} files path
    (files, result.map fun _ => path)

end Settings

end MeshNode
