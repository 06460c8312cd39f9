import MeshNode.Json.Token

/-!
# Reading JSON

A value is read token by token. The reader keeps the arrays and objects that are still
open and what may come next; a text is read when one value is complete and nothing is open.
-/

namespace MeshNode.Json

/-- An open array or object. Items are kept last first; `name` awaits its value. -/
inductive Frame
  | array (items : List Json)
  | object (members : List (String × Json)) (name : String)

/-- What may come next. -/
inductive Need
  | value
  | valueOrClose
  | nameOrClose (members : List (String × Json))
  | name (members : List (String × Json))
  | colon
  | commaOrClose
  | done (value : Json)

/-- The reader between two tokens. -/
structure Reader where
  stack : List Frame
  need : Need

namespace Reader

/-- How many arrays and objects may be open at once. -/
def maxDepth : Nat := 127

/-- The reader before a text. -/
def start : Reader := ⟨[], .value⟩

/-- Takes a complete value. -/
def complete (value : Json) : List Frame → Reader
  | [] => ⟨[], .done value⟩
  | .array items :: outer => ⟨.array (value :: items) :: outer, .commaOrClose⟩
  | .object members name :: outer =>
    ⟨.object (insertMember name value members) name :: outer, .commaOrClose⟩

/-- Takes the beginning of a value. -/
def beginValue (stack : List Frame) : Token → Option Reader
  | .scalar v => some (complete v stack)
  | .text s => some (complete (.str s) stack)
  | .arrayOpen =>
    if stack.length < maxDepth then some ⟨.array [] :: stack, .valueOrClose⟩ else none
  | .objectOpen => if stack.length < maxDepth then some ⟨stack, .nameOrClose []⟩ else none
  | _ => none

/-- Takes a token. -/
def step (r : Reader) (t : Token) : Option Reader :=
  match r.need, t, r.stack with
  | .value, t, stack => beginValue stack t
  | .valueOrClose, .arrayClose, .array items :: outer =>
    some (complete (.arr items.reverse) outer)
  | .valueOrClose, t, stack => beginValue stack t
  | .nameOrClose members, .objectClose, stack => some (complete (.obj members) stack)
  | .nameOrClose members, .text s, stack => some ⟨.object members s :: stack, .colon⟩
  | .name members, .text s, stack => some ⟨.object members s :: stack, .colon⟩
  | .colon, .colon, stack => some ⟨stack, .value⟩
  | .commaOrClose, .comma, .array items :: outer => some ⟨.array items :: outer, .value⟩
  | .commaOrClose, .comma, .object members _ :: outer => some ⟨outer, .name members⟩
  | .commaOrClose, .arrayClose, .array items :: outer =>
    some (complete (.arr items.reverse) outer)
  | .commaOrClose, .objectClose, .object members _ :: outer =>
    some (complete (.obj members) outer)
  | _, _, _ => none

/-- The value that a complete text spells. -/
def result? (r : Reader) : Option Json :=
  match r.need with
  | .done value => some value
  | _ => none

end Reader

/-- The value a text spells. -/
def parse? (s : List Char) : Option Json := do
  let ts ← tokens? s
  let r ← ts.foldlM Reader.step Reader.start
  r.result?

end MeshNode.Json
