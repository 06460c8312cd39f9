import MeshNode.Text.Lines
import MeshNode.Text.Utf8

/-!
# File trees

Files and directories by their place, and the few operations that settings need. A path is
followed from the root one name at a time; every name but the last must be a directory.
-/

namespace MeshNode

open MeshNode.Text

/-- Why an operation on files failed. -/
inductive FileError
  | notFound
  | alreadyExists
  | notADirectory
  | isADirectory
  | nameTooLong
  | notUtf8
deriving DecidableEq

/-- The wording of a file error. -/
def FileError.message : FileError → String
  | .notFound => "No such file or directory (os error 2)"
  | .alreadyExists => "File exists (os error 17)"
  | .notADirectory => "Not a directory (os error 20)"
  | .isADirectory => "Is a directory (os error 21)"
  | .nameTooLong => "File name too long (os error 36)"
  | .notUtf8 => "stream did not contain valid UTF-8"

/-! ## Paths -/

/-- A path: the names on the way, and whether its text ends with a slash. -/
structure FilePath where
  names : List String
  trailing : Bool
deriving DecidableEq

namespace FilePath

/-- The path that a text spells, if it is not empty. Empty names and single dots do not count. -/
def parse? (text : String) : Option FilePath :=
  if text = "" then none
  else
    let parts := (splitAt '/' text.toList).map String.ofList
    some {
      names := parts.filter fun n => n ≠ "" ∧ n ≠ "."
      trailing := parts.getLast?.any fun n => n = "" ∨ n = "." }

/-- The path without its last name; of a path without names there is none. -/
def parent? (p : FilePath) : Option FilePath :=
  if p.names.isEmpty then none else some ⟨p.names.dropLast, false⟩

/-- A text with another behind it, and a slash between the two unless the first is empty or
ends with one. -/
def join (base name : String) : String :=
  if base = "" ∨ base.toList.getLast? = some '/' then base ++ name else base ++ "/" ++ name

end FilePath

/-! ## Trees -/

/-- What stands at a place. -/
inductive FileEntry
  | file (content : List UInt8)
  | directory
deriving DecidableEq

/-- Files and directories by their place, each place once. The root, which has no names, is
always a directory. -/
structure FileTree where
  entries : List (List String × FileEntry)
deriving DecidableEq

namespace FileTree

/-- What stands at a place. -/
def entry? (t : FileTree) (place : List String) : Option FileEntry :=
  if place.isEmpty then some .directory else t.entries.lookup place

/-- The tree with an entry put at a place. -/
def put (t : FileTree) (place : List String) (e : FileEntry) : FileTree :=
  ⟨go t.entries⟩
where
  go : List (List String × FileEntry) → List (List String × FileEntry)
    | [] => [(place, e)]
    | (p, old) :: rest => if p = place then (p, e) :: rest else (p, old) :: go rest

/-- The tree with an entry put at a path below a directory, and with the directories on the
way to it. -/
def putBelow (t : FileTree) (base : List String) (path : String) (e : FileEntry) : FileTree :=
  let names := ((splitAt '/' path.toList).map String.ofList).filter (· ≠ "")
  let parents := (List.range names.length).map fun n => base ++ names.take n
  let t := parents.foldl (fun t p => if (t.entry? p).isSome then t else t.put p .directory) t
  t.put (base ++ names) e

/-- What stands below a directory, by its path from there. -/
def below (t : FileTree) (base : List String) : List (String × FileEntry) :=
  t.entries.filterMap fun (place, e) =>
    if base.isPrefixOf place ∧ place ≠ base then
      some ("/".intercalate (place.drop base.length), e)
    else none

/-- Checks that a place is a directory. -/
def checkDirectory (t : FileTree) (place : List String) : Except FileError Unit :=
  match t.entry? place with
  | some .directory => .ok ()
  | some (.file _) => .error .notADirectory
  | none => .error .notFound

/-- The most octets of a name. -/
def maxName : Nat := 255

/-- The place one step on from a directory; two dots lead back. -/
def stepTo (here : List String) (name : String) : Except FileError (List String) :=
  if name = ".." then .ok here.dropLast
  else if name.utf8ByteSize > maxName then .error .nameTooLong
  else .ok (here ++ [name])

/-- Follows names from a directory to a place, at which nothing needs to stand yet. -/
def follow (t : FileTree) (here : List String) : List String → Except FileError (List String)
  | [] => .ok here
  | [name] => stepTo here name
  | name :: rest => do
    let next ← stepTo here name
    t.checkDirectory next
    t.follow next rest

/-- The place that a path leads to. A path that ends with a slash leads to a directory only. -/
def locate (t : FileTree) (p : FilePath) : Except FileError (List String) := do
  let place ← t.follow [] p.names
  match p.trailing, t.entry? place with
  | true, some (.file _) => .error .notADirectory
  | _, _ => return place

/-- What a path leads to. -/
def find (t : FileTree) (p : FilePath) : Except FileError FileEntry := do
  let place ← t.locate p
  match t.entry? place with
  | some e => return e
  | none => .error .notFound

/-- Whether a path leads to anything. -/
def pathExists (t : FileTree) (text : String) : Bool :=
  match FilePath.parse? text with
  | some p => (t.find p).isOk
  | none => false

/-- The text of a file. -/
def readText (t : FileTree) (text : String) : Except FileError String :=
  match FilePath.parse? text with
  | none => .error .notFound
  | some p => do
    match ← t.find p with
    | .directory => .error .isADirectory
    | .file content =>
      match ofUtf8? content with
      | some s => return s
      | none => .error .notUtf8

/-- Makes one directory. -/
def makeDirectory (t : FileTree) (p : FilePath) : Except FileError FileTree := do
  let place ← t.follow [] p.names
  match t.entry? place with
  | some _ => .error .alreadyExists
  | none => return t.put place .directory

/-- Whether a path leads to a directory. -/
def isDirectory (t : FileTree) (p : FilePath) : Bool :=
  match t.find p with
  | .ok .directory => true
  | _ => false

/-- Makes a directory given by `length` names, and those on the way to it that are missing.
What was made before a failure stays. -/
def makeDirectories (t : FileTree) : (length : Nat) → FilePath → FileTree × Except FileError Unit
  | 0, _ => (t, .ok ())
  | length + 1, p =>
    match t.makeDirectory p with
    | .ok made => (made, .ok ())
    | .error .notFound =>
      match t.makeDirectories length ⟨p.names.dropLast, false⟩ with
      | (t, .error e) => (t, .error e)
      | (t, .ok ()) =>
        match t.makeDirectory p with
        | .ok made => (made, .ok ())
        | .error e => (t, if t.isDirectory p then .ok () else .error e)
    | .error e => (t, if t.isDirectory p then .ok () else .error e)

/-- Makes the directory that a path lies in. -/
def makeParents (t : FileTree) (text : String) : FileTree × Except FileError Unit :=
  match (FilePath.parse? text).bind FilePath.parent? with
  | some p => t.makeDirectories p.names.length p
  | none => (t, .ok ())

/-- Writes a file, in place of one that is there. -/
def write (t : FileTree) (text : String) (content : List UInt8) : Except FileError FileTree :=
  match FilePath.parse? text with
  | none => .error .notFound
  | some p => do
    let place ← t.locate p
    match t.entry? place, p.trailing with
    | some .directory, _ => .error .isADirectory
    | none, true => .error .isADirectory
    | _, _ => return t.put place (.file content)

end FileTree

end MeshNode
