import MeshNode.Text.Hex
import MeshNode.Toml.Value

/-!
# Writing TOML

Sections of assignments, with a blank line between sections. A text is written in the
plainest of five forms that holds it, and an array of two or more items over several lines.
-/

namespace MeshNode.Toml

open MeshNode.Text

/-! ## Texts -/

/-- The form in which a text is written. -/
inductive Form
  | basic
  | literal
  | basicLines
  | literalLines
deriving DecidableEq

/-- A control character other than tab and newline. -/
def isControl (c : Char) : Bool :=
  (c.toNat < 0x20 && c != '\t' && c != '\n') || c.toNat == 0x7f

/-- Whether a character occurs three times in a row. -/
def hasRunOfThree (mark : Char) : List Char → Bool
  | a :: b :: c :: rest =>
    (a == mark && b == mark && c == mark) || hasRunOfThree mark (b :: c :: rest)
  | _ => false

/-- The form for a text. -/
def formOf (s : List Char) : Form :=
  let control := s.any isControl
  let newline := s.contains '\n'
  let backslash := s.contains '\\'
  if !control && !newline && !backslash && !s.contains '"' then .basic
  else if !control && !newline && !s.contains '\x27' then .literal
  else if !control && !backslash && !hasRunOfThree '"' s then .basicLines
  else if !control && !hasRunOfThree '\x27' s then .literalLines
  else if newline then .basicLines
  else .basic

/-- A character of a basic text other than a quote and a newline. -/
def escapeChar (c : Char) : List Char :=
  match c with
  | '\x08' => ['\\', 'b']
  | '\t' => ['\\', 't']
  | '\x0c' => ['\\', 'f']
  | '\r' => ['\\', 'r']
  | '\\' => ['\\', '\\']
  | c =>
    if c.toNat < 0x20 || c.toNat == 0x7f then
      ['\\', 'u', '0', '0', hexCharUpper (c.toNat / 16), hexCharUpper (c.toNat % 16)]
    else [c]

/-- A character of a basic text on one line. -/
def basicChar (c : Char) : List Char :=
  if c = '"' then ['\\', '"'] else if c = '\n' then ['\\', 'n'] else escapeChar c

/-- The characters of a basic text on several lines; `run` counts the quotes just written. -/
def basicLinesChars (run : Nat) : List Char → List Char
  | [] => []
  | '"' :: rest =>
    if run = 2 then '\\' :: '"' :: basicLinesChars 0 rest
    else '"' :: basicLinesChars (run + 1) rest
  | '\n' :: rest => '\n' :: basicLinesChars 0 rest
  | c :: rest => escapeChar c ++ basicLinesChars 0 rest

/-- The line end after the opening mark of a text that has line ends. -/
def openingNewline (s : List Char) : List Char := if s.contains '\n' then ['\n'] else []

/-- A text in the given form. -/
def textIn (form : Form) (s : List Char) : List Char :=
  match form with
  | .basic => '"' :: s.flatMap basicChar ++ ['"']
  | .literal => '\x27' :: s ++ ['\x27']
  | .basicLines =>
    ['"', '"', '"'] ++ openingNewline s ++ basicLinesChars 0 s ++ ['"', '"', '"']
  | .literalLines =>
    ['\x27', '\x27', '\x27'] ++ openingNewline s ++ s ++ ['\x27', '\x27', '\x27']

/-- A text in the form that suits it. -/
def textChars (s : String) : List Char := textIn (formOf s.toList) s.toList

/-! ## Values -/

/-- The value of an assignment that is written. -/
inductive Printable
  | text (value : String)
  | number (value : Nat)
  | boolean (value : Bool)
  | texts (items : List String)

/-- The greatest number that has a written form. -/
def maxNumber : Nat := 0x7fffffffffffffff

/-- An item of an array, on its own line. -/
def itemLine (s : String) : List Char := [' ', ' ', ' ', ' '] ++ textChars s ++ [',', '\n']

/-- A value; a number may be too great. -/
def Printable.chars? : Printable → Option (List Char)
  | .text s => some (textChars s)
  | .number n => if n ≤ maxNumber then some (toString n).toList else none
  | .boolean b => some (if b then "true" else "false").toList
  | .texts [] => some ['[', ']']
  | .texts [s] => some ('[' :: textChars s ++ [']'])
  | .texts items => some (['[', '\n'] ++ items.flatMap itemLine ++ [']'])

/-! ## Documents -/

/-- A line that assigns a value to a bare key. -/
def assignmentLine? (name : String) (value : Printable) : Option (List Char) :=
  value.chars?.map fun chars => name.toList ++ [' ', '=', ' '] ++ chars ++ ['\n']

/-- A header and its assignments. -/
structure Section where
  name : String
  entries : List (String × Printable)

/-- The lines of a section. -/
def Section.chars? (s : Section) : Option (List Char) := do
  let lines ← s.entries.mapM fun (name, value) => assignmentLine? name value
  return '[' :: s.name.toList ++ [']', '\n'] ++ lines.flatten

/-- The lines of some sections, with a blank line between them. -/
def sectionsChars? : List Section → Option (List Char)
  | [] => some []
  | [s] => s.chars?
  | s :: rest => do
    let first ← s.chars?
    let others ← sectionsChars? rest
    return first ++ '\n' :: others

end MeshNode.Toml
