import MeshNode.Net.Ipv6

/-!
# URLs

The parts of an absolute URL and its one written form. The six schemes with rules of their
own, such as `http`, are called special; every other scheme keeps the host as it is given.
-/

namespace MeshNode

/-! ## Parts -/

/-- A host. -/
inductive Host
  /-- A name, percent-encoded where its scheme asks for it; never empty. -/
  | name (text : String)
  | ipv4 (address : Ipv4)
  | ipv6 (address : Ipv6)
deriving DecidableEq

/-- The text of a host, an IPv6 address in brackets. -/
def Host.render : Host → String
  | .name text => text
  | .ipv4 address => address.render
  | .ipv6 address => "[" ++ address.renderHex ++ "]"

/-- What follows the two slashes: the user, the host and the port. Texts are encoded, and an
empty user or password counts as absent. -/
structure Authority where
  username : String
  password : String
  host : Option Host
  port : Option Nat
deriving DecidableEq

/-- A path: a row of segments, each behind a slash, or a plain text that does not begin
with a slash. -/
inductive UrlPath
  | plain (text : String)
  | segments (parts : List String)
deriving DecidableEq

/-- The text of a path. -/
def UrlPath.render : UrlPath → String
  | .plain text => text
  | .segments parts => String.join (parts.map ("/" ++ ·))

/-- An absolute URL. -/
structure Url where
  scheme : String
  authority : Option Authority
  path : UrlPath
  query : Option String
  fragment : Option String
deriving DecidableEq

/-- Why a text is no absolute URL. -/
inductive UrlError
  | relativeWithoutBase
  | invalidPort
  | emptyHost
  | invalidIpv6
  | invalidIpv4
  | invalidDomainName
  | invalidHostCharacter
deriving DecidableEq

/-- The wording of a URL error. -/
def UrlError.message : UrlError → String
  | .relativeWithoutBase => "relative URL without a base"
  | .invalidPort => "invalid port number"
  | .emptyHost => "empty host"
  | .invalidIpv6 => "invalid IPv6 address"
  | .invalidIpv4 => "invalid IPv4 address"
  | .invalidDomainName => "invalid international domain name"
  | .invalidHostCharacter => "invalid domain character"

/-! ## Schemes -/

namespace Url

/-- Whether a scheme is one of those with rules of their own. -/
def isSpecialScheme (scheme : String) : Bool :=
  ["http", "https", "ws", "wss", "ftp", "file"].contains scheme

/-- The port that a scheme implies. -/
def defaultPort? : String → Option Nat
  | "http" => some 80
  | "https" => some 443
  | "ws" => some 80
  | "wss" => some 443
  | "ftp" => some 21
  | _ => none

/-! ## Written form -/

/-- The user and password, with the mark that ends them, if there are any. -/
def userinfoText (a : Authority) : String :=
  if a.username = "" ∧ a.password = "" then ""
  else if a.password = "" then a.username ++ "@"
  else a.username ++ ":" ++ a.password ++ "@"

/-- The text of an authority, with the two slashes before it. -/
def authorityText (a : Authority) : String :=
  "//" ++ userinfoText a ++ (a.host.map Host.render).getD "" ++
    (match a.port with
    | some port => ":" ++ toString port
    | none => "")

/-- The text of a path. -/
def pathText (u : Url) : String := u.path.render

/-- What must stand between a scheme without authority and a path that would otherwise look
like one. -/
def pathGuard (u : Url) : String :=
  match u.authority, u.path with
  | none, .segments ("" :: _ :: _) => "/."
  | _, _ => ""

/-- The text of a URL. -/
def render (u : Url) : String :=
  u.scheme ++ ":" ++ (u.authority.map authorityText).getD "" ++ pathGuard u ++ u.pathText ++
    (u.query.map ("?" ++ ·)).getD "" ++ (u.fragment.map ("#" ++ ·)).getD ""

/-! ## Reading parts -/

/-- The host, if there is one. -/
def host? (u : Url) : Option Host := u.authority.bind (·.host)

/-- The text of the host, if there is one. -/
def hostText? (u : Url) : Option String := u.host?.map Host.render

/-- The port, unless it is absent or the scheme implies it. -/
def port? (u : Url) : Option Nat := u.authority.bind (·.port)

/-- Host and port, if the URL names both. -/
def endpoint? (u : Url) : Option String := do
  let host ← u.hostText?
  let port ← u.port?
  return host ++ ":" ++ toString port

end Url

end MeshNode
