import MeshNode.Text.Integer

/-!
# Texts in TOML

The four ways to write a text: basic texts in double quotes, with escapes, and literal texts
in apostrophes, each on one line or, behind a tripled mark, on several. Every function takes
the text after the opening mark and gives what it spells and what follows the closing mark.
-/

namespace MeshNode.Toml

open MeshNode.Text

/-! ## Characters -/

/-- A space or tab. -/
def isSpace (c : Char) : Bool := c == ' ' || c == '\t'

/-- A character that is no control character, or a tab. -/
def isPrintable (c : Char) : Bool := c == '\t' || (c.toNat ≥ 0x20 && c.toNat ≠ 0x7f)

/-- The character of some hexadecimal digits, if it is one. -/
def scalarValue? (digits : List Char) : Option Char := do
  let n ← digits.foldlM (fun acc c => (hexDigit? c).map (acc * 16 + ·)) 0
  if n < 0xd800 ∨ (0xe000 ≤ n ∧ n < 0x110000) then some (Char.ofNat n) else none

/-- The character of an escape other than the numbered ones. -/
def escaped? : Char → Option Char
  | 'b' => some '\x08'
  | 't' => some '\t'
  | 'n' => some '\n'
  | 'f' => some '\x0c'
  | 'r' => some '\r'
  | '"' => some '"'
  | '\\' => some '\\'
  | _ => none

/-- The result of a text whose characters were gathered last first. -/
def gathered (acc rest : List Char) : Option (String × List Char) :=
  some (String.ofList acc.reverse, rest)

/-! ## One line -/

/-- A basic text. -/
def basic (acc : List Char) : List Char → Option (String × List Char)
  | '"' :: rest => gathered acc rest
  | '\\' :: 'u' :: a :: b :: c :: d :: rest =>
    match scalarValue? [a, b, c, d] with
    | some x => basic (x :: acc) rest
    | none => none
  | '\\' :: 'U' :: a :: b :: c :: d :: e :: f :: g :: h :: rest =>
    match scalarValue? [a, b, c, d, e, f, g, h] with
    | some x => basic (x :: acc) rest
    | none => none
  | '\\' :: c :: rest =>
    match escaped? c with
    | some x => basic (x :: acc) rest
    | none => none
  | c :: rest => if c ≠ '\\' ∧ isPrintable c then basic (c :: acc) rest else none
  | [] => none

/-- A literal text. -/
def literal (acc : List Char) : List Char → Option (String × List Char)
  | '\x27' :: rest => gathered acc rest
  | c :: rest => if isPrintable c then literal (c :: acc) rest else none
  | [] => none

/-! ## Several lines -/

/-- The end of a text of several lines, after three closing marks: up to two more marks
before the closing ones belong to the text. -/
def closeLines (mark : Char) (acc : List Char) : List Char → Option (String × List Char)
  | a :: b :: rest =>
    if a = mark ∧ b = mark then gathered (mark :: mark :: acc) rest
    else if a = mark then gathered (mark :: acc) (b :: rest)
    else gathered acc (a :: b :: rest)
  | [a] => if a = mark then gathered (mark :: acc) [] else gathered acc [a]
  | [] => gathered acc []

/-- Whether a text begins with a line end. -/
def beginsLineEnd : List Char → Bool
  | '\n' :: _ => true
  | '\r' :: '\n' :: _ => true
  | _ => false

/-- A basic text of several lines. While `skipping`, after a backslash at the end of a line,
white space does not count. -/
def basicLines (skipping : Bool) (acc : List Char) : List Char → Option (String × List Char)
  | '"' :: '"' :: '"' :: rest => closeLines '"' acc rest
  | '\\' :: 'u' :: a :: b :: c :: d :: rest =>
    match scalarValue? [a, b, c, d] with
    | some x => basicLines false (x :: acc) rest
    | none => none
  | '\\' :: 'U' :: a :: b :: c :: d :: e :: f :: g :: h :: rest =>
    match scalarValue? [a, b, c, d, e, f, g, h] with
    | some x => basicLines false (x :: acc) rest
    | none => none
  | '\\' :: c :: rest =>
    match escaped? c with
    | some x => basicLines false (x :: acc) rest
    | none =>
      if beginsLineEnd ((c :: rest).dropWhile isSpace) then
        if c = '\r' then basicLines true acc (c :: rest)
        else basicLines true acc rest
      else none
  | '\r' :: '\n' :: rest =>
    if skipping then basicLines true acc rest else basicLines false ('\n' :: acc) rest
  | c :: rest =>
    if skipping && (isSpace c || c == '\n') then basicLines true acc rest
    else if c = '\n' ∨ (c ≠ '\\' ∧ isPrintable c) then basicLines false (c :: acc) rest
    else none
  | [] => none

/-- A literal text of several lines. -/
def literalLines (acc : List Char) : List Char → Option (String × List Char)
  | '\x27' :: '\x27' :: '\x27' :: rest => closeLines '\x27' acc rest
  | '\r' :: '\n' :: rest => literalLines ('\n' :: acc) rest
  | c :: rest =>
    if c = '\n' ∨ isPrintable c then literalLines (c :: acc) rest else none
  | [] => none

/-- A text without a line end at its beginning. -/
def dropLineEnd : List Char → List Char
  | '\n' :: rest => rest
  | '\r' :: '\n' :: rest => rest
  | s => s

/-- A text in any of the four forms. -/
def text? : List Char → Option (String × List Char)
  | '"' :: '"' :: '"' :: rest => basicLines false [] (dropLineEnd rest)
  | '"' :: rest => basic [] rest
  | '\x27' :: '\x27' :: '\x27' :: rest => literalLines [] (dropLineEnd rest)
  | '\x27' :: rest => literal [] rest
  | _ => none

end MeshNode.Toml
