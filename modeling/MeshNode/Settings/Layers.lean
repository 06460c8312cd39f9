import MeshNode.CommandLine.Daemon
import MeshNode.Log
import MeshNode.Settings.Storage

/-!
# The daemon's settings

The daemon takes each setting from the command line, else from the environment, else from
the settings file, else from the defaults. It writes a settings file if there is none, and
runs with the defaults alone if the file cannot be used. Settings that nothing could run
with are refused in the end.
-/

namespace MeshNode.Settings

open MeshNode.CommandLine

/-- The settings with those that the command line names in place of their own. The search for
peers is only switched on for a node without peers. -/
def applyArgs (args : DaemonArgs) (s : Settings) : Settings :=
  let s := match args.interface with
    | some interface => { s with radv := { s.radv with enable := true, interface } }
    | none => s
  if args.autopeer ∧ s.node.peers = [] then
    { s with autopeering := { s.autopeering with enable := true } }
  else s

/-- The settings that the daemon runs with, and the files after it looked for them. -/
def forDaemon (env : Environment) (files : FileTree) (args : DaemonArgs) :
    FileTree × Except InvalidSettings Settings :=
  let (files, _) := writeDefault env files
  let s := match load env files with
    | .ok s => s
    | .error _ => {}
  let s := applyArgs args s
  (files, s.validate.map fun _ => s)

/-- What the daemon tells if something that it does with its settings fails. -/
def faultEvent {α : Type} (message : String) : Except SettingsError α → List Log.Event
  | .ok _ => []
  | .error e => [⟨.warn, "popurad", message, [("error", e.message)]⟩]

/-- What the daemon tells while it looks for its settings. -/
def eventsForDaemon (env : Environment) (files : FileTree) : List Log.Event :=
  let (files, written) := writeDefault env files
  faultEvent "failed to write default config" written ++
    faultEvent "failed to load config, using defaults" (load env files)

end MeshNode.Settings
