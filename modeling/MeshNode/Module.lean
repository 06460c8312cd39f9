/-!
# Services of the node

What can go wrong when a service of the node is told to start.
-/

namespace MeshNode

/-- Why a service does not start. -/
inductive ModuleError
  | notInitialized (service : String)
  | settings (reason : String)
  | interface (name reason : String)
deriving DecidableEq

/-- The text of an error. -/
def ModuleError.message : ModuleError → String
  | .notInitialized service => s!"{service}: start called before init"
  | .settings reason => s!"invalid configuration: {reason}"
  | .interface name reason => s!"interface {name}: {reason}"

end MeshNode
