import MeshNode.Net.Ipv6
import MeshNode.Text.Blank
import MeshNode.Text.Utf8

/-!
# Targets of a proxied connection

A target is written `host:port`, the host perhaps in brackets. On the wire it is an address
or a name of at most 255 octets, followed by the port.
-/

namespace MeshNode.Socks

open MeshNode.Text

/-- A host and a port to connect to. -/
structure Target where
  host : String
  port : Nat
deriving DecidableEq

/-- The host and port of a text. Brackets around the host are dropped, however many. -/
def Target.parse? (text : String) : Option Target := do
  let (host, port) ← splitLast? ':' text.toList
  let port ← (parsePort (String.ofList port)).toOption
  return ⟨String.ofList (trimEnd (· == ']') (host.dropWhile (· == '['))), port⟩

/-- Where a request asks the proxy to connect to. -/
inductive Destination
  | ipv4 (address : Ipv4)
  | ipv6 (address : Ipv6)
  | name (octets : List UInt8)
deriving DecidableEq

/-- The destination of a host: an address if the text spells one, else a name, if it is not
too long. -/
def Destination.ofHost? (host : String) : Option Destination :=
  match Ipv4.parse? host.toList with
  | some a => some (.ipv4 a)
  | none =>
    match Ipv6.parse? host.toList with
    | some a => some (.ipv6 a)
    | none =>
      let octets := utf8 host
      if octets.length ≤ 255 then some (.name octets) else none

/-- The kinds of address on the wire. -/
def typeIpv4 : UInt8 := 1
/-- The kind of a name. -/
def typeName : UInt8 := 3
/-- The kind of an IPv6 address. -/
def typeIpv6 : UInt8 := 4

/-- The octets of a destination. -/
def Destination.encode : Destination → List UInt8
  | .ipv4 a => typeIpv4 :: a.toList
  | .ipv6 a => typeIpv6 :: a.toList
  | .name octets => typeName :: UInt8.ofNat octets.length :: octets

/-- A request to connect. -/
structure Request where
  destination : Destination
  port : Nat
deriving DecidableEq

/-- The request for a target, if its host is not too long. -/
def Target.request? (t : Target) : Option Request :=
  (Destination.ofHost? t.host).map (⟨·, t.port⟩)

/-- The octets of a request. -/
def Request.encode (r : Request) : List UInt8 :=
  [5, 1, 0] ++ r.destination.encode ++ beBytes 2 r.port

/-- The text of a request's destination and port, an IPv6 address in brackets. -/
def Request.render (r : Request) : String :=
  let host := match r.destination with
    | .ipv4 a => a.render
    | .ipv6 a => "[" ++ a.render ++ "]"
    | .name octets => (ofUtf8? octets).getD ""
  host ++ ":" ++ toString r.port

end MeshNode.Socks
