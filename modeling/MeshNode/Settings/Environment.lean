import MeshNode.FileTree
import MeshNode.Proxy
import MeshNode.Settings.Document

/-!
# Settings from the environment

Variables say where the settings are kept, and four of them override a setting each.
-/

namespace MeshNode.Settings

open MeshNode.Text

/-- The variable that names the settings file. -/
def fileVariable : String := "POPURA_CONFIG"

/-- The directory that holds the settings file, if no variable names the file. -/
def directory (env : Environment) : String :=
  let base := match env.lookup "XDG_CONFIG_HOME" with
    | some d => d
    | none => FilePath.join ((env.lookup "HOME").getD "/tmp") ".config"
  FilePath.join base "popura"

/-- The path of the settings file. -/
def filePath (env : Environment) : String :=
  match env.lookup fileVariable with
  | some p => p
  | none => FilePath.join (directory env) "config.toml"

/-- Whether a variable switches something on. -/
def isOn (value : String) : Bool := value == "true" || value == "1"

/-- The settings with those that the environment names in place of their own. A port that is
no number of 16 bits does not count. -/
def override (env : Environment) (s : Settings) : Settings :=
  { s with
    node := { s.node with
      adminPort := (do (parsePort (← env.lookup "POPURA_NODE__ADMIN_PORT")).toOption).getD
        s.node.adminPort }
    autopeering := { s.autopeering with
      enable := ((env.lookup "POPURA_AUTOPEERING__ENABLE").map isOn).getD s.autopeering.enable }
    radv := { s.radv with
      interface := (env.lookup "POPURA_RADV__INTERFACE").getD s.radv.interface
      enable := ((env.lookup "POPURA_RADV__ENABLE").map isOn).getD s.radv.enable } }

end MeshNode.Settings
