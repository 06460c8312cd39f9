/-!
# TOML values

The values of a document, as far as settings need them: of a floating-point number and of a
date only the kind is kept.
-/

namespace MeshNode

/-- A value of a document. -/
inductive Toml
  | text (value : String)
  | integer (value : Int)
  | float
  | boolean (value : Bool)
  | datetime
  | array (items : List Toml)
  | table (entries : List (String × Toml))

namespace Toml

instance : Inhabited Toml := ⟨boolean false⟩

/-- The entry of a name, if the value is a table that has it. -/
def entry? (name : String) : Toml → Option Toml
  | table entries => entries.lookup name
  | _ => none

/-- The greatest number of nested arrays and inline tables, and of parts of a dotted key. -/
def maxDepth : Nat := 79

end Toml

end MeshNode
