import MeshNode.Text.Percent
import MeshNode.Url.Host

/-!
# Paths, queries and fragments in URLs

Which characters each part encodes, and how the segments of a path are resolved: `.` stands
for nothing and `..` takes the segment before it away, unless that one is a drive letter.
-/

namespace MeshNode.Url

open MeshNode.Text MeshNode.Host

/-! ## Characters to encode -/

/-- The characters a fragment encodes. -/
def encodedInFragment (c : Char) : Bool := isControl c || " \"<>`".toList.contains c

/-- The characters a query encodes; one of a special scheme also encodes the apostrophe. -/
def encodedInQuery (special : Bool) (c : Char) : Bool :=
  isControl c || " \"#<>".toList.contains c || (special && c == '\x27')

/-- The characters a path encodes. -/
def encodedInPath (c : Char) : Bool := encodedInFragment c || "#?\x7b\x7d".toList.contains c

/-- The characters a user or password encodes. -/
def encodedInUserinfo (c : Char) : Bool := encodedInPath c || "/:;=@[\\]^|".toList.contains c

/-- A part with the characters of a class encoded. -/
def encodePart (encoded : Char → Bool) (s : List Char) : String :=
  String.ofList (percentEncode encoded s)

/-! ## Segments -/

/-- A dot, or its percent-encoded form, taken off the front. -/
def dropDot? : List Char → Option (List Char)
  | '.' :: rest => some rest
  | '%' :: '2' :: 'e' :: rest => some rest
  | '%' :: '2' :: 'E' :: rest => some rest
  | _ => none

/-- Whether a segment is one dot. -/
def isDot (s : List Char) : Bool := dropDot? s == some []

/-- Whether a segment is two dots. -/
def isDotDot (s : List Char) : Bool := (dropDot? s).bind dropDot? == some []

/-- Whether a segment is a letter and a colon or bar. -/
def isDrive : List Char → Bool
  | [letter, mark] => letter.isAlpha && (mark == ':' || mark == '|')
  | _ => false

/-- The segments without the last one, which stays if it is a drive letter. -/
def dropSegment (parts : List String) : List String :=
  match parts.getLast? with
  | some last => if isDrive last.toList then parts else parts.dropLast
  | none => []

/-- Takes one more segment; `final` if no slash follows it. The first segment of a `file` URL
is a drive letter in either spelling, and is written with a colon. -/
def addSegment (file : Bool) (parts : List String) (segment : List Char) (final : Bool) :
    List String :=
  if isDotDot segment then
    if final then dropSegment parts ++ [""] else dropSegment parts
  else if isDot segment then
    if final then parts ++ [""] else parts
  else if file && parts.isEmpty && isDrive segment then
    parts ++ [String.ofList (segment.take 1 ++ [':'])]
  else parts ++ [encodePart encodedInPath segment]

/-- Takes the segments of a path in turn. -/
def addSegments (file : Bool) (parts : List String) : List (List Char) → List String
  | [] => parts
  | [last] => addSegment file parts last true
  | segment :: rest => addSegments file (addSegment file parts segment false) rest

/-- The segments of a path, given the text after its first slash. In a special scheme a
backslash separates segments too. -/
def segmentsOf (special file : Bool) (s : List Char) : List String :=
  let s := if special then s.map fun c => if c == '\\' then '/' else c else s
  let parts := addSegments file [] (splitAt '/' s)
  if file then
    match parts.dropWhile (· == "") with
    | [] => [""]
    | kept => kept
  else parts

end MeshNode.Url
