import MeshNode.Json.Value
import MeshNode.Text.Hex

/-!
# Writing JSON

The compact form, without white space, and the pretty form, with each item on a line of its
own, two spaces deeper than what holds it. A floating-point number is written with the
fewest digits that read back as it, and always with a point or an exponent.
-/

namespace MeshNode.Json

open MeshNode.Text

/-! ## Numbers -/

/-- Where positional notation ends: the number of digits before the point is above `least`
and at most `greatest`. -/
structure FloatFormat where
  least : Int
  greatest : Int

/-- Numbers from 0.00001 up to sixteen digits before the point are written positionally. -/
def floatFormat : FloatFormat := ⟨-5, 16⟩

/-- The text of an exponent, which always has its sign. -/
def exponentText (e : Int) : List Char :=
  'e' :: (if e < 0 then [] else ['+']) ++ (toString e).toList

/-- The text of a decimal number. -/
def decimalText (d : Binary64.Decimal) : List Char :=
  let n : Int := d.digits.length
  if 0 < d.point ∧ d.point ≤ floatFormat.greatest then
    if n ≤ d.point then
      d.digits ++ List.replicate (d.point - n).toNat '0' ++ ['.', '0']
    else d.digits.take d.point.toNat ++ ['.'] ++ d.digits.drop d.point.toNat
  else if floatFormat.least < d.point ∧ d.point ≤ 0 then
    ['0', '.'] ++ List.replicate (-d.point).toNat '0' ++ d.digits
  else
    match d.digits with
    | [only] => only :: exponentText (d.point - 1)
    | first :: rest => first :: '.' :: rest ++ exponentText (d.point - 1)
    | [] => []

/-- The text of a floating-point number. -/
def floatText (x : Binary64) : List Char :=
  (if x.negative then ['-'] else []) ++
    (if x.isZero then ['0', '.', '0'] else decimalText x.shortest)

/-- The text of a number. -/
def numberText : JsonNumber → List Char
  | .int n => (toString n).toList
  | .float x => floatText x

/-! ## Texts -/

/-- One character of a text. -/
def textChar (c : Char) : List Char :=
  match c with
  | '"' => ['\\', '"']
  | '\\' => ['\\', '\\']
  | '\x08' => ['\\', 'b']
  | '\x0c' => ['\\', 'f']
  | '\n' => ['\\', 'n']
  | '\r' => ['\\', 'r']
  | '\t' => ['\\', 't']
  | c =>
    if c.toNat < 0x20 then
      ['\\', 'u', '0', '0', hexChar (c.toNat / 16), hexChar (c.toNat % 16)]
    else [c]

/-- A text in quotes. -/
def textChars (s : String) : List Char := '"' :: s.toList.flatMap textChar ++ ['"']

/-! ## Values -/

mutual

/-- The compact form of a value. -/
def compact : Json → List Char
  | null => ['n', 'u', 'l', 'l']
  | bool true => ['t', 'r', 'u', 'e']
  | bool false => ['f', 'a', 'l', 's', 'e']
  | num n => numberText n
  | str s => textChars s
  | arr items => '[' :: compactItems items ++ [']']
  | obj members => '\x7b' :: compactMembers members ++ ['\x7d']

/-- The items of an array, with commas between them. -/
def compactItems : List Json → List Char
  | [] => []
  | [item] => compact item
  | item :: rest => compact item ++ ',' :: compactItems rest

/-- The members of an object, with commas between them. -/
def compactMembers : List (String × Json) → List Char
  | [] => []
  | [(name, value)] => textChars name ++ ':' :: compact value
  | (name, value) :: rest => textChars name ++ ':' :: compact value ++ ',' :: compactMembers rest

end

/-- A new line at a depth. -/
def newline (depth : Nat) : List Char := '\n' :: List.replicate (2 * depth) ' '

mutual

/-- The pretty form of a value at a depth. -/
def prettyAt (depth : Nat) : Json → List Char
  | arr [] => ['[', ']']
  | arr (item :: rest) => '[' :: prettyItems (depth + 1) (item :: rest) ++ newline depth ++ [']']
  | obj [] => ['\x7b', '\x7d']
  | obj (member :: rest) =>
    '\x7b' :: prettyMembers (depth + 1) (member :: rest) ++ newline depth ++ ['\x7d']
  | null => compact null
  | bool b => compact (bool b)
  | num n => compact (num n)
  | str s => compact (str s)

/-- The items of an array, each on its own line. -/
def prettyItems (depth : Nat) : List Json → List Char
  | [] => []
  | [item] => newline depth ++ prettyAt depth item
  | item :: rest => newline depth ++ prettyAt depth item ++ ',' :: prettyItems depth rest

/-- The members of an object, each on its own line. -/
def prettyMembers (depth : Nat) : List (String × Json) → List Char
  | [] => []
  | [(name, value)] =>
    newline depth ++ textChars name ++ ':' :: ' ' :: prettyAt depth value
  | (name, value) :: rest =>
    newline depth ++ textChars name ++ ':' :: ' ' :: prettyAt depth value ++
      ',' :: prettyMembers depth rest

end

/-- The compact form of a value, as a text. -/
def render (v : Json) : String := String.ofList (compact v)

/-- The pretty form of a value, as a text. -/
def renderPretty (v : Json) : String := String.ofList (prettyAt 0 v)

end MeshNode.Json
