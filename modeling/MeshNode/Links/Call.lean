import MeshNode.Catalog
import MeshNode.Dial
import MeshNode.Proxy

/-!
# Calling a peer

What a peer's URL asks to dial. The schemes `tcp` and `tls` name the peer itself; `socks`
names a proxy, with the peer as path.
-/

namespace MeshNode.Links

/-- Why a call to a peer fails. -/
inductive CallError
  | unsupportedScheme (scheme : String)
  | missingEndpoint (uri : Url)
  | alreadyConnected (key : String)
  | dial (uri : Url) (cause : DialFault)
  | rejected (reason : String)
deriving DecidableEq

/-- The text of an error. -/
def CallError.message : CallError → String
  | .unsupportedScheme scheme => s!"unsupported peer scheme: {scheme}"
  | .missingEndpoint uri => s!"peer uri has no host or port: {uri.render}"
  | .alreadyConnected key => s!"already connected to {key}"
  | .dial uri cause => s!"dial {uri.render} failed: {cause.message}"
  | .rejected reason => s!"engine rejected peer: {reason}"

/-- The target that the path of a URL names, if it names one. -/
def pathTarget? (uri : Url) : Option String :=
  match uri.pathText.toList.dropWhile (· == '/') with
  | [] => none
  | target => some (String.ofList target)

/-- The dial to a target through a proxy at an address. -/
def dialThrough (uri : Url) (address target : String) : Except CallError Dial :=
  match Proxy.parse ("socks5://" ++ address) with
  | .error e => .error (.rejected e.message)
  | .ok none => .error (.missingEndpoint uri)
  | .ok (some proxy) => .ok (.through proxy.address target)

/-- What the URL of a peer asks to dial. -/
def dialOf (uri : Url) : Except CallError Dial :=
  if Catalog.isSupported uri then
    match uri.endpoint? with
    | some target => .ok (.direct target)
    | none => .error (.missingEndpoint uri)
  else if uri.scheme = Proxy.scheme then
    match uri.endpoint?, pathTarget? uri with
    | some address, some target => dialThrough uri address target
    | _, _ => .error (.missingEndpoint uri)
  else .error (.unsupportedScheme uri.scheme)

end MeshNode.Links
