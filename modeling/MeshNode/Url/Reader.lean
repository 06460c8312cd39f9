import MeshNode.Text.Blank
import MeshNode.Url.Path

/-!
# Reading URLs

An absolute URL is cut into its parts from the left: the scheme, the authority if two
slashes follow, the path, the query and the fragment. Control characters and spaces around
the text, and tabs and line ends inside it, do not count.
-/

namespace MeshNode.Url

open MeshNode.Text MeshNode.Host

/-! ## Cutting -/

/-- A text without what does not count. -/
def clean (s : List Char) : List Char :=
  (trim (·.toNat ≤ 0x20) s).filter fun c => c != '\t' && c != '\n' && c != '\r'

/-- A character that a scheme may hold after its first. -/
def isSchemeChar (c : Char) : Bool :=
  c.isAlphanum || c == '+' || c == '-' || c == '.'

/-- The scheme, in lower case, and what follows its colon. -/
def cutScheme? (s : List Char) : Option (String × List Char) :=
  match s with
  | [] => none
  | c :: _ =>
    if c.isAlpha then
      match breakAt (! isSchemeChar ·) s with
      | (scheme, ':' :: rest) => some (String.ofList (scheme.map lowerAscii), rest)
      | _ => none
    else none

/-- Whether a character ends the authority. -/
def endsAuthority (special : Bool) (c : Char) : Bool :=
  c == '/' || c == '?' || c == '#' || (special && c == '\\')

/-- Whether a character ends the path. -/
def endsPath (c : Char) : Bool := c == '?' || c == '#'

/-- The query and the fragment, given the text after the path. -/
def cutTail (special : Bool) (s : List Char) : Option String × Option String :=
  let fragment (s : List Char) : Option String :=
    match s with
    | '#' :: rest => some (encodePart encodedInFragment rest)
    | _ => none
  match s with
  | '?' :: rest =>
    let (query, rest) := breakAt (· == '#') rest
    (some (encodePart (encodedInQuery special) query), fragment rest)
  | _ => (none, fragment s)

/-! ## Authority -/

/-- The user and password before the last at sign of an authority, and what follows it. -/
def cutUserinfo (special : Bool) (s : List Char) :
    Except UrlError (String × String × List Char) :=
  let (authority, rest) := breakAt (endsAuthority special) s
  match splitLast? '@' authority with
  | none => .ok ("", "", s)
  | some ([], after) =>
    if after.isEmpty && !rest.isEmpty then .error .emptyHost else .ok ("", "", after ++ rest)
  | some (userinfo, after) =>
    let (user, password) := (splitFirst? ':' userinfo).getD (userinfo, [])
    .ok (encodePart encodedInUserinfo user, encodePart encodedInUserinfo password, after ++ rest)

/-- The text of a host, up to a colon outside brackets or the end of the authority. -/
def cutHost (special inside : Bool) : List Char → List Char × List Char
  | [] => ([], [])
  | c :: rest =>
    if (c == ':' && !inside) || endsAuthority special c then ([], c :: rest)
    else
      let inside := if c == '[' then true else if c == ']' then false else inside
      let (host, tail) := cutHost special inside rest
      (c :: host, tail)

/-- The port after a host and what follows it. -/
def cutPort (scheme : String) (s : List Char) : Except UrlError (Option Nat × List Char) :=
  match s with
  | ':' :: rest =>
    let (digits, tail) := breakAt (! isDecimal ·) rest
    match readDigits 0x10000 0 digits, tail.head?.all (endsAuthority true) with
    | .ok port, true =>
      .ok (if digits.isEmpty ∨ defaultPort? scheme = some port then none else some port, tail)
    | _, _ => .error .invalidPort
  | _ => .ok (none, s)

/-- The authority after two slashes, and what follows it. -/
def cutAuthority (scheme : String) (s : List Char) : Except UrlError (Authority × List Char) := do
  let special := isSpecialScheme scheme
  let (username, password, s) ← cutUserinfo special s
  let (text, s) := cutHost special false s
  let host ← if special then
      if text.isEmpty then .error .emptyHost else (parseDomain text).map some
    else parsePlain text
  if host.isNone ∧ (s.head? = some ':' ∨ username ≠ "" ∨ password ≠ "") then
    .error .emptyHost
  else
    let (port, s) ← cutPort scheme s
    return (⟨username, password, host, port⟩, s)

/-! ## Paths -/

/-- The segments of a path after an authority, which a special scheme always has. -/
def pathAfterAuthority (special : Bool) (s : List Char) : UrlPath :=
  match s with
  | [] => .segments (if special then [""] else [])
  | c :: rest =>
    if c == '/' || (special && c == '\\') then .segments (segmentsOf special false rest)
    else .segments (segmentsOf special false s)

/-! ## Files -/

/-- The authority of a `file` URL, from the text of its host. The host `localhost` is none. -/
def fileAuthority (s : List Char) : Except UrlError Authority := do
  let host ← if s.isEmpty then .ok none else (parseDomain s).map some
  return ⟨"", "", if host = some (.name "localhost") then none else host, none⟩

/-- The authority of a `file` URL that names no host. -/
def noHost : Authority := ⟨"", "", none, none⟩

/-- Whether a character is a slash of either kind. -/
def isSlash (c : Char) : Bool := c == '/' || c == '\\'

/-- The authority and the segments of a `file` URL. A path that begins with a drive letter
has no host, even if one is given. -/
def parseFile (s : List Char) : Except UrlError (Authority × List String) :=
  match s with
  | a :: b :: rest =>
    if isSlash a && isSlash b then
      let (text, tail) := breakAt isSlash rest
      if isDrive text then .ok (noHost, segmentsOf true true rest)
      else do
        let authority ← fileAuthority text
        let tail := tail.drop 1
        let drive := isDrive (breakAt isSlash tail).1
        return (if drive then noHost else authority, segmentsOf true true tail)
    else .ok (noHost, segmentsOf true true (if isSlash a then b :: rest else s))
  | _ => .ok (noHost, segmentsOf true true (s.dropWhile isSlash))

/-! ## URLs -/

/-- The URL of a scheme, given the text after its colon. -/
def parseAfterScheme (scheme : String) (s : List Char) : Except UrlError Url :=
  let special := isSpecialScheme scheme
  if scheme = "file" then do
    let (body, tail) := breakAt endsPath s
    let (authority, segments) ← parseFile body
    let (query, fragment) := cutTail true tail
    return ⟨scheme, some authority, .segments segments, query, fragment⟩
  else
    let afterSlashes := if special then some (s.dropWhile isSlash) else
      match s with
      | '/' :: '/' :: rest => some rest
      | _ => none
    match afterSlashes with
    | some rest => do
      let (authority, rest) ← cutAuthority scheme rest
      let (body, tail) := breakAt endsPath rest
      let (query, fragment) := cutTail special tail
      return ⟨scheme, some authority, pathAfterAuthority special body, query, fragment⟩
    | none =>
      let (body, tail) := breakAt endsPath s
      let (query, fragment) := cutTail special tail
      let path := match body with
        | '/' :: rest => .segments (segmentsOf false false rest)
        | _ => .plain (encodePart isControl body)
      .ok ⟨scheme, none, path, query, fragment⟩

/-- The absolute URL a text spells. -/
def parse (s : String) : Except UrlError Url :=
  match cutScheme? (clean s.toList) with
  | none => .error .relativeWithoutBase
  | some (scheme, rest) => parseAfterScheme scheme rest

end MeshNode.Url
