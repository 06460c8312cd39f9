import MeshNode.Text.Folding
import MeshNode.Text.Lines

/-!
# Media types

Whether a content type names JSON: a type, a subtype that may end in a suffix, and
parameters, each of which must be well formed even though none matters.
-/

namespace MeshNode.Admin

open MeshNode.Text

/-- A character of a type, of a parameter's name and of its bare value. -/
def isTokenChar (c : Char) : Bool :=
  c.isAlphanum || "!#$%&'*+-.^_\x60|~".toList.contains c

/-- A character inside a quoted parameter value. -/
def isQuotedChar (c : Char) : Bool := c.toNat > 31 && c.toNat ≠ 127

/-- What follows a parameter's value and the mark that ends it, or nothing if no well-formed
value is there. A quoted value is not empty; spaces may follow it. -/
def dropValue? (s : List Char) : Option (List Char) :=
  match s with
  | '"' :: rest =>
    match breakAt (fun c => c == '"' || !isQuotedChar c) rest with
    | (_ :: _, '"' :: tail) =>
      match tail.dropWhile (· == ' ') with
      | [] => some []
      | ';' :: rest => some rest
      | _ => none
    | _ => none
  | _ =>
    match breakAt (! isTokenChar ·) s with
    | (_, []) => some []
    | (_ :: _, ';' :: rest) => some rest
    | _ => none

/-- Whether a text is a row of well-formed parameters. Spaces before a name do not count. -/
def areParameters : (fuel : Nat) → List Char → Bool
  | fuel, s =>
    match s.dropWhile (· == ' ') with
    | [] => true
    | s =>
      match fuel, breakAt (! isTokenChar ·) s with
      | fuel + 1, (_ :: _, '=' :: value) =>
        match dropValue? value with
        | some rest => areParameters fuel rest
        | none => false
      | _, _ => false

/-- Whether a content type names JSON: `application/json`, or a subtype with that suffix. -/
def isJsonType (contentType : String) : Bool :=
  let s := contentType.toList.map lowerAscii
  match breakAt (! isTokenChar ·) s with
  | (type, '/' :: rest) =>
    let (subtype, rest) := breakAt (! isTokenChar ·) rest
    let base := ((splitLast? '+' subtype).filter fun (b, _) => !b.isEmpty).getD (subtype, [])
    type == "application".toList && !subtype.isEmpty &&
      (base.1 == "json".toList || base.2 == "json".toList) &&
      match rest with
      | [] => true
      | ';' :: parameters => areParameters parameters.length parameters
      | _ => false
  | _ => false

end MeshNode.Admin
