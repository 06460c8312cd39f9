import MeshNode.Toml.Scalar
import MeshNode.Toml.Table
import MeshNode.Toml.Text

/-!
# Reading TOML

A document is read statement by statement: headers and assignments, each on lines of its
own, with comments and blank lines between them.
-/

namespace MeshNode.Toml

/-! ## Blanks and comments -/

/-- A text without the spaces and tabs at its beginning. -/
def dropSpace (s : List Char) : List Char := s.dropWhile isSpace

/-- What follows a comment, or the text itself if it begins with none. -/
def dropComment : List Char → List Char
  | '#' :: rest => rest.dropWhile isPrintable
  | s => s

/-- What follows the rest of a line that holds nothing more than a comment. -/
def endLine? (s : List Char) : Option (List Char) :=
  match dropComment (dropSpace s) with
  | [] => some []
  | '\n' :: rest => some rest
  | '\r' :: '\n' :: rest => some rest
  | _ => none

/-- A text without the blanks, comments and line ends at its beginning. Each step of the
given number takes a character at least. -/
def dropFiller : (fuel : Nat) → List Char → List Char
  | 0, s => s
  | fuel + 1, s =>
    match dropComment (dropSpace s) with
    | '\n' :: rest => dropFiller fuel rest
    | '\r' :: '\n' :: rest => dropFiller fuel rest
    | rest => rest

/-! ## Keys -/

/-- A character of a bare key. -/
def isKeyChar (c : Char) : Bool := c.isAlphanum || c == '_' || c == '-'

/-- One part of a key. -/
def keyPart? (s : List Char) : Option (String × List Char) :=
  match s with
  | '"' :: rest => basic [] rest
  | '\x27' :: rest => literal [] rest
  | _ =>
    match Text.breakAt (! isKeyChar ·) s with
    | ([], _) => none
    | (name, rest) => some (String.ofList name, rest)

/-- The parts of a key, with dots and blanks between them. -/
def keyParts : (fuel : Nat) → List Char → Option (List String × List Char)
  | 0, _ => none
  | fuel + 1, s => do
    let (name, rest) ← keyPart? (dropSpace s)
    match dropSpace rest with
    | '.' :: tail =>
      let (names, rest) ← keyParts fuel tail
      return (name :: names, rest)
    | tail => return ([name], tail)

/-- A key, which has not too many parts, and the text after the blanks that follow it. -/
def key? (s : List Char) : Option (List String × List Char) := do
  let (names, rest) ← keyParts (s.length + 1) s
  if names.length ≤ maxDepth then some (names, rest) else none

/-! ## Values -/

/-- What follows a character that must come next. -/
def expect? (c : Char) : List Char → Option (List Char)
  | d :: rest => if c = d then some rest else none
  | [] => none

mutual

/-- A value inside `depth` arrays and inline tables, and what follows it. -/
def valueIn (depth : Nat) : (fuel : Nat) → List Char → Option (Toml × List Char)
  | 0, _ => none
  | fuel + 1, s =>
    match s with
    | '"' :: _ => (text? s).map fun (t, rest) => (.text t, rest)
    | '\x27' :: _ => (text? s).map fun (t, rest) => (.text t, rest)
    | '[' :: rest =>
      if depth < maxDepth then
        (itemsIn (depth + 1) fuel rest).map fun (items, rest) => (.array items, rest)
      else none
    | '\x7b' :: rest =>
      if depth < maxDepth then
        match dropSpace rest with
        | '\x7d' :: rest => some (.table [], rest)
        | rest => do
          let (pairs, rest) ← pairsIn (depth + 1) fuel rest
          let table ← inlineTable? pairs
          return (table, rest)
      else none
    | _ => scalar? s

/-- The items of an array and what follows its closing bracket. A comma may follow the last. -/
def itemsIn (depth : Nat) : (fuel : Nat) → List Char → Option (List Toml × List Char)
  | 0, _ => none
  | fuel + 1, s =>
    match dropFiller s.length s with
    | ']' :: rest => some ([], rest)
    | s => do
      let (item, rest) ← valueIn depth fuel s
      match dropFiller rest.length rest with
      | ',' :: rest =>
        let (items, rest) ← itemsIn depth fuel rest
        return (item :: items, rest)
      | ']' :: rest => return ([item], rest)
      | _ => none

/-- The keys and values of an inline table and what follows its closing brace. -/
def pairsIn (depth : Nat) :
    (fuel : Nat) → List Char → Option (List (List String × Toml) × List Char)
  | 0, _ => none
  | fuel + 1, s => do
    let (key, rest) ← key? s
    let rest ← expect? '=' rest
    let (value, rest) ← valueIn depth fuel (dropSpace rest)
    match dropSpace rest with
    | ',' :: rest =>
      let (pairs, rest) ← pairsIn depth fuel rest
      return ((key, value) :: pairs, rest)
    | '\x7d' :: rest => return ([(key, value)], rest)
    | _ => none

end

/-- A value and what follows it. -/
def value? (s : List Char) : Option (Toml × List Char) := valueIn 0 (s.length + 1) s

/-! ## Statements -/

/-- The statement a text begins with, and what follows it on the line. -/
def statement? (s : List Char) : Option (Statement × List Char) :=
  match s with
  | '[' :: '[' :: rest => do
    let (path, rest) ← key? rest
    let rest ← expect? ']' rest
    let rest ← expect? ']' rest
    return (.arrayHeader path, rest)
  | '[' :: rest => do
    let (path, rest) ← key? rest
    let rest ← expect? ']' rest
    return (.header path, rest)
  | _ => do
    let (key, rest) ← key? s
    let rest ← expect? '=' rest
    let (value, rest) ← value? (dropSpace rest)
    return (.assign key value, rest)

/-- The statements of a text, of which each takes a character at least. -/
def statementsIn : (fuel : Nat) → List Char → Option (List Statement)
  | fuel, s =>
    match dropFiller s.length s with
    | [] => some []
    | s =>
      match fuel with
      | 0 => none
      | fuel + 1 => do
        let (statement, rest) ← statement? s
        let rest ← endLine? rest
        let statements ← statementsIn fuel rest
        return statement :: statements

/-- A text without a byte order mark at its beginning. -/
def dropMark : List Char → List Char
  | '\ufeff' :: rest => rest
  | s => s

/-- The table that a document spells. -/
def parse? (text : String) : Option Toml := do
  let s := dropMark text.toList
  let statements ← statementsIn s.length s
  ofStatements? statements

end MeshNode.Toml
