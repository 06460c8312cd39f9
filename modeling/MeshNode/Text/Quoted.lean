import MeshNode.Text.Integer
import MeshNode.Text.Visible

/-!
# Quoted text

How a text is shown inside a message: between quotes, with what a reader could not see or
tell apart written as an escape.
-/

namespace MeshNode.Text

/-- One character of a text between the given marks. -/
def quoteChar (mark c : Char) : List Char :=
  match c with
  | '\x00' => ['\\', '0']
  | '\t' => ['\\', 't']
  | '\r' => ['\\', 'r']
  | '\n' => ['\\', 'n']
  | c =>
    if c = mark ∨ c = '\\' then ['\\', c]
    else if isVisible c then [c]
    else ['\\', 'u', '\x7b'] ++ hexDigits c.toNat ++ ['\x7d']

/-- A text in double quotes. -/
def quoted (s : String) : String :=
  String.ofList ('"' :: s.toList.flatMap (quoteChar '"') ++ ['"'])

/-- A character in single quotes. -/
def quotedChar (c : Char) : String :=
  String.ofList ('\x27' :: quoteChar '\x27' c ++ ['\x27'])

end MeshNode.Text
