import MeshNode.Toml.Value

/-!
# Building tables

How the statements of a document make up one table. A table is defined once: by its header,
or by the dotted keys of one place. A table that was only passed through on the way to
another may still be defined by a header later.
-/

namespace MeshNode.Toml

/-- How a table came to be. -/
inductive Origin
  /-- Defined by a header, or the table of the document itself. -/
  | defined
  /-- Passed through by a header. -/
  | passed
  /-- Made by a dotted key. -/
  | dotted
deriving DecidableEq

/-- An entry of a table being built. -/
inductive Item
  | value (v : Toml)
  | table (origin : Origin) (entries : List (String × Item))
  /-- An array of tables, the last one first. -/
  | tables (last : List (String × Item)) (before : List (List (String × Item)))

/-- The entries of a table being built. -/
abbrev Entries := List (String × Item)

namespace Entries

/-- The entries with one set; a new one comes last. -/
def set (name : String) (item : Item) : Entries → Entries
  | [] => [(name, item)]
  | (n, i) :: rest => if n = name then (n, item) :: rest else (n, i) :: set name item rest

/-- Assigns a value inside a table, which for a key of several parts is made or extended by
dotted keys alone. -/
def assign (value : Toml) : List String → Entries → Option Entries
  | [], _ => none
  | [name], entries =>
    match entries.lookup name with
    | none => some (set name (.value value) entries)
    | some _ => none
  | name :: rest, entries =>
    match entries.lookup name with
    | none => do
      let inner ← assign value rest []
      return set name (.table .dotted inner) entries
    | some (.table .dotted inner) => do
      let inner ← assign value rest inner
      return set name (.table .dotted inner) entries
    | some (.table .passed inner) =>
      -- such a table holds no values of its own, but one that dotted keys make may stand in it
      if rest.length ≤ 1 then none
      else do
        let inner ← assign value rest inner
        return set name (.table .passed inner) entries
    | some (.tables last before) =>
      if rest.length ≤ 1 then none
      else do
        let last ← assign value rest last
        return set name (.tables last before) entries
    | some _ => none

/-- Changes the table that the parts of a header but the last lead to. Tables on the way are
passed through, and of an array of tables the last one is meant. -/
def within (change : Entries → Option Entries) : List String → Entries → Option Entries
  | [], entries => change entries
  | name :: rest, entries =>
    match entries.lookup name with
    | none => do
      let inner ← within change rest []
      return set name (.table .passed inner) entries
    | some (.table origin inner) => do
      let inner ← within change rest inner
      return set name (.table origin inner) entries
    | some (.tables last before) => do
      let last ← within change rest last
      return set name (.tables last before) entries
    | some (.value _) => none

/-- Defines a table by its header. -/
def define (name : String) (entries : Entries) : Option Entries :=
  match entries.lookup name with
  | none => some (set name (.table .defined []) entries)
  | some (.table .passed inner) => some (set name (.table .defined inner) entries)
  | some _ => none

/-- Begins one more table of an array of tables. -/
def append (name : String) (entries : Entries) : Option Entries :=
  match entries.lookup name with
  | none => some (set name (.tables [] []) entries)
  | some (.tables last before) => some (set name (.tables [] (last :: before)) entries)
  | some _ => none

mutual

/-- The value that an entry has become. -/
def itemValue : Item → Toml
  | .value v => v
  | .table _ entries => .table (entryValues entries)
  | .tables last before => .array ((tableValues before).reverse ++ [.table (entryValues last)])

/-- The entries of a finished table. -/
def entryValues : List (String × Item) → List (String × Toml)
  | [] => []
  | (name, item) :: rest => (name, itemValue item) :: entryValues rest

/-- The tables of a finished array. -/
def tableValues : List (List (String × Item)) → List Toml
  | [] => []
  | entries :: rest => .table (entryValues entries) :: tableValues rest

end

end Entries

/-! ## Statements -/

/-- A statement of a document. -/
inductive Statement
  | header (path : List String)
  | arrayHeader (path : List String)
  | assign (key : List String) (value : Toml)

/-- A document being built: its table, and the header whose table assignments go to. -/
structure Document where
  root : Entries
  here : List String

namespace Document

/-- The document before its first statement. -/
def empty : Document := ⟨[], []⟩

/-- Changes the table whose header came last. -/
def take (d : Document) : Statement → Option Document
  | .header path => do
    let name ← path.getLast?
    let root ← Entries.within (Entries.define name) path.dropLast d.root
    return ⟨root, path⟩
  | .arrayHeader path => do
    let name ← path.getLast?
    let root ← Entries.within (Entries.append name) path.dropLast d.root
    return ⟨root, path⟩
  | .assign key value => do
    let root ← Entries.within (Entries.assign value key) d.here d.root
    return { d with root }

end Document

/-- The table that some statements make up. -/
def ofStatements? (statements : List Statement) : Option Toml := do
  let d ← statements.foldlM Document.take Document.empty
  return .table (Entries.entryValues d.root)

/-- The table of some keys and values in one place. -/
def inlineTable? (pairs : List (List String × Toml)) : Option Toml := do
  let entries ← pairs.foldlM (fun acc (key, value) => Entries.assign value key acc) []
  return .table (Entries.entryValues entries)

end MeshNode.Toml
