import MeshNode.Json.Numeral
import MeshNode.Text.Hex

/-!
# JSON tokens

The marks, texts and scalars of a JSON text. A text must be free of control characters,
and an escaped surrogate must be one of a pair.
-/

namespace MeshNode.Json

open MeshNode.Text

/-- A token of a JSON text. -/
inductive Token
  | arrayOpen
  | arrayClose
  | objectOpen
  | objectClose
  | comma
  | colon
  | text (value : String)
  | scalar (value : Json)

/-- White space between tokens. -/
def isSpace (c : Char) : Bool := c == ' ' || c == '\t' || c == '\n' || c == '\r'

/-- The number that four hexadecimal digits spell. -/
def unit? (a b c d : Char) : Option Nat :=
  [a, b, c, d].foldlM (fun acc x => (hexDigit? x).map (acc * 16 + ·)) 0

/-- The character of an escape other than `\u`. -/
def escaped? : Char → Option Char
  | '"' => some '"'
  | '\\' => some '\\'
  | '/' => some '/'
  | 'b' => some '\x08'
  | 'f' => some '\x0c'
  | 'n' => some '\n'
  | 'r' => some '\r'
  | 't' => some '\t'
  | _ => none

/-- The character of a pair of surrogates. -/
def ofSurrogates (high low : Nat) : Char :=
  Char.ofNat (0x10000 + (high - 0xd800) * 0x400 + (low - 0xdc00))

/-- The rest of a text after its opening quote: the text, and what follows its closing quote.
`acc` holds the characters so far, the last one first. -/
def readText (acc : List Char) : List Char → Option (String × List Char)
  | '"' :: rest => some (String.ofList acc.reverse, rest)
  | '\\' :: 'u' :: a :: b :: c :: d :: rest =>
    match unit? a b c d with
    | none => none
    | some u =>
      if 0xd800 ≤ u ∧ u < 0xdc00 then
        match rest with
        | '\\' :: 'u' :: e :: f :: g :: h :: rest =>
          match unit? e f g h with
          | some l =>
            if 0xdc00 ≤ l ∧ l < 0xe000 then readText (ofSurrogates u l :: acc) rest else none
          | none => none
        | _ => none
      else if 0xdc00 ≤ u ∧ u < 0xe000 then none
      else readText (Char.ofNat u :: acc) rest
  | '\\' :: c :: rest =>
    match escaped? c with
    | some e => readText (e :: acc) rest
    | none => none
  | c :: rest => if c.toNat < 0x20 then none else readText (c :: acc) rest
  | [] => none

/-- The token a text begins with, and what follows it. White space has been skipped. -/
def token? : List Char → Option (Token × List Char)
  | '[' :: rest => some (.arrayOpen, rest)
  | ']' :: rest => some (.arrayClose, rest)
  | '\x7b' :: rest => some (.objectOpen, rest)
  | '\x7d' :: rest => some (.objectClose, rest)
  | ',' :: rest => some (.comma, rest)
  | ':' :: rest => some (.colon, rest)
  | '"' :: rest => (readText [] rest).map fun (t, tail) => (.text t, tail)
  | 'n' :: 'u' :: 'l' :: 'l' :: rest => some (.scalar .null, rest)
  | 't' :: 'r' :: 'u' :: 'e' :: rest => some (.scalar (.bool true), rest)
  | 'f' :: 'a' :: 'l' :: 's' :: 'e' :: rest => some (.scalar (.bool false), rest)
  | s => do
    let (numeral, rest) ← Numeral.scan? s
    let value ← numeral.value?
    return (.scalar (.num value), rest)

/-- The tokens of a text, the last one first, after those in `acc`. Every token takes a
character, so the length of the text is fuel enough. -/
def tokensFrom (acc : List Token) : (fuel : Nat) → List Char → Option (List Token)
  | fuel, s =>
    match s.dropWhile isSpace with
    | [] => some acc
    | trimmed =>
      match fuel with
      | 0 => none
      | fuel + 1 =>
        match token? trimmed with
        | some (t, rest) => tokensFrom (t :: acc) fuel rest
        | none => none

/-- The tokens of a text. -/
def tokens? (s : List Char) : Option (List Token) :=
  (tokensFrom [] s.length s).map List.reverse

end MeshNode.Json
