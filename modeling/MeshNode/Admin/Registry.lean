import MeshNode.Json.Value

/-!
# Administration hooks

Parts of the node register named hooks; a hook takes a JSON value and gives one. The first
hook of a name keeps it, and hooks are listed in the order of their names.
-/

namespace MeshNode.Admin

/-- Why a hook was not added or gave no value. -/
inductive HookError
  | unknown (name : String)
  | duplicate (name : String)
  | failed (text : String)
deriving DecidableEq

/-- The wording of a hook error. -/
def HookError.message : HookError → String
  | .unknown name => s!"no admin handler named {name}"
  | .duplicate name => s!"admin handler {name} already registered"
  | .failed text => text

/-- What a hook does with its arguments. -/
abbrev Handler := Json → Except HookError Json

/-- A named hook. -/
structure Hook where
  name : String
  description : String
  handler : Handler

/-- The hooks of a node, by increasing name. -/
structure Registry where
  hooks : List Hook

namespace Registry

/-- The registry without hooks. -/
def empty : Registry := ⟨[]⟩

/-- The hook of a name. -/
def find? (r : Registry) (name : String) : Option Hook := r.hooks.find? (·.name == name)

/-- Hooks with one more in its place. -/
def insert (h : Hook) : List Hook → List Hook
  | [] => [h]
  | k :: rest => if h.name < k.name then h :: k :: rest else k :: insert h rest

/-- Adds a hook, unless its name is taken. -/
def add (r : Registry) (h : Hook) : Except HookError Registry :=
  match r.find? h.name with
  | some _ => .error (.duplicate h.name)
  | none => .ok ⟨insert h r.hooks⟩

/-- Calls the hook of a name. -/
def call (r : Registry) (name : String) (args : Json) : Except HookError Json :=
  match r.find? name with
  | some h => h.handler args
  | none => .error (.unknown name)

/-- Names and descriptions, by increasing name. -/
def list (r : Registry) : List (String × String) := r.hooks.map fun h => (h.name, h.description)

/-- The number of hooks. -/
def size (r : Registry) : Nat := r.hooks.length

end Registry

/-! ## Simple hooks -/

/-- The handler that gives its arguments back. -/
def echo : Handler := fun args => .ok args

/-- The handler that always gives one value. -/
def constant (v : Json) : Handler := fun _ => .ok v

/-- The handler that gives one member of its arguments. -/
def memberOf (key : String) : Handler := fun args =>
  match args.member? key with
  | some v => .ok v
  | none => .error (.failed ("missing " ++ key))

/-- The handler that always fails. -/
def failing (e : HookError) : Handler := fun _ => .error e

end MeshNode.Admin
