import MeshNode.Text.Quoted
import MeshNode.Url.Reader

/-!
# Forward proxies

A node may reach its peers through a SOCKS5 proxy. A peer behind the proxy is written as a
URL of its own, with the proxy as host and the peer's host and port as path; that URL is
read back, and one that does not name the same target is refused.
-/

namespace MeshNode

open MeshNode.Text

/-- Variables and their values. -/
abbrev Environment := List (String × String)

/-- Why a text names no usable proxy, or a peer cannot be reached through one. -/
inductive ProxyError
  | malformed (text : String) (cause : UrlError)
  | unsupportedScheme (scheme : String)
  | missingEndpoint (url : Url)
  | unroutablePeer (url : Url)
  | invalidPeerUrl (text : String)
deriving DecidableEq

/-- The wording of a proxy error. -/
def ProxyError.message : ProxyError → String
  | .malformed text cause => s!"malformed proxy url {quoted text}: {cause.message}"
  | .unsupportedScheme scheme => s!"unsupported proxy scheme {quoted scheme}, expected socks5"
  | .missingEndpoint url => s!"proxy url {url.render} has no host or port"
  | .unroutablePeer url => s!"peer {url.render} cannot be routed through a proxy"
  | .invalidPeerUrl text => s!"rewritten peer uri {quoted text} is invalid"

/-- A forward proxy and the `host:port` it listens on. -/
structure Proxy where
  url : Url
  address : String
deriving DecidableEq

namespace Proxy

/-- The port of a proxy whose URL names none. -/
def defaultPort : Nat := 1080

/-- The scheme of peers behind a proxy. -/
def scheme : String := "socks"

/-- The schemes of the URLs that name proxies. -/
def schemes : List String := ["socks", "socks5", "socks5h"]

/-- The proxy that a URL names. -/
def ofUrl (url : Url) : Except ProxyError Proxy :=
  if url.scheme ∉ schemes then
    .error (.unsupportedScheme url.scheme)
  else
    match url.hostText? with
    | none => .error (.missingEndpoint url)
    | some host => .ok ⟨url, host ++ ":" ++ toString (url.port?.getD defaultPort)⟩

/-- The proxy that a text names; a blank text names none. -/
def parse (text : String) : Except ProxyError (Option Proxy) :=
  let trimmed := trim isBlank text.toList
  if trimmed.isEmpty then .ok none
  else
    match Url.parse (String.ofList trimmed) with
    | .error cause => .error (.malformed (String.ofList trimmed) cause)
    | .ok url => (ofUrl url).map some

/-- The proxy that the environment names, in capitals first. -/
def ofEnvironment (env : Environment) : Except ProxyError (Option Proxy) :=
  match (env.lookup "ALL_PROXY").filter (· ≠ "") <|> env.lookup "all_proxy" with
  | some text => parse text
  | none => .ok none

/-- The URL of a peer as reached through the proxy. -/
def urlBehind (p : Proxy) (peer : Url) : Except ProxyError Url :=
  match peer.endpoint? with
  | none => .error (.unroutablePeer peer)
  | some target =>
    let text := scheme ++ "://" ++ p.address ++ "/" ++ target
    match Url.parse text with
    | .error _ => .error (.invalidPeerUrl text)
    | .ok url =>
      if url.scheme = scheme ∧ url.hostText?.isSome ∧
          url.pathText.toList.dropWhile (· == '/') = target.toList then .ok url
      else .error (.invalidPeerUrl text)

end Proxy

end MeshNode
