import MeshNode.Addressing
import MeshNode.Dial
import MeshNode.Loopback.ProxyServer
import MeshNode.Url.Host

/-!
# The loopback network

A network of one machine, on which a node can be run from beginning to end. Some addresses
accept connections, a scripted proxy may be there, and nothing else answers.
-/

namespace MeshNode.Loopback

open MeshNode.Text

/-! ## Addresses -/

/-- The address `127.0.0.1`. -/
def localhost4 : Ipv4 := Octets.padded 4 [127, 0, 0, 1]

/-- The address `::1`. -/
def localhost6 : Ipv6 := Octets.padded 16 (List.replicate 15 0 ++ [1])

/-- The IPv4 address that an IPv6 address stands for. -/
def mapped? (a : Ipv6) : Option Ipv4 :=
  if a.toList.take 12 = List.replicate 10 0 ++ [0xff, 0xff] then Octets.ofList? (a.toList.drop 12)
  else none

/-- The addresses of a host that is not in brackets. -/
def hostAddresses (host : List Char) (port : Nat) : Except ConnectFault (List SocketAddress) :=
  match Ipv4.parse? host with
  | some a => .ok [.v4 a port]
  | none =>
    if host = "localhost".toList then .ok [.v6 localhost6 port, .v4 localhost4 port]
    else if host.getLast? = some '.' then .error .unknownHost
    else
      match Host.endsInNumber host, Host.parseNumeric host with
      | true, .ok (.ipv4 a) => .ok [.v4 a port]
      | _, _ => .error .unknownHost

/-- The addresses that a target names. -/
def resolve (target : String) : Except ConnectFault (List SocketAddress) :=
  match splitLast? ':' target.toList with
  | none => .error .unknownHost
  | some (host, port) =>
    match parsePort (String.ofList port), host with
    | .error _, _ => .error .unknownHost
    | .ok port, '[' :: inner =>
      match Host.parseBracketed inner with
      | .ok (.ipv6 a) => .ok [.v6 a port]
      | _ => .error .unknownHost
    | .ok port, host => hostAddresses host port

/-- The first address that a target names. -/
def firstAddress? (target : String) : Option SocketAddress :=
  match resolve target with
  | .ok addresses => addresses.head?
  | .error _ => none

/-- The address that listens where a connection to an IPv4 address goes. -/
def route4 (a : Ipv4) (port : Nat) : Except ConnectFault SocketAddress :=
  if a = Octets.zero 4 then .ok (.v4 localhost4 port)
  else if a.get 0 = 127 then .ok (.v4 a port)
  else .error .unreachable

/-- The address that listens where a connection goes. -/
def route : SocketAddress → Except ConnectFault SocketAddress
  | .v4 a port => route4 a port
  | .v6 a port =>
    match mapped? a with
    | some a => route4 a port
    | none =>
      if a = Octets.zero 16 ∨ a = localhost6 then .ok (.v6 localhost6 port)
      else if isLinkLocal a then .error .needsInterface
      else .error .unreachable

/-- The address that a connection to an address has at its other end. -/
def remoteOf : SocketAddress → SocketAddress
  | .v4 a port => .v4 (if a = Octets.zero 4 then localhost4 else a) port
  | .v6 a port => .v6 (if a = Octets.zero 16 then localhost6 else a) port

/-! ## The network -/

/-- A connection as the address that has accepted it knows it. -/
structure Accepted where
  connection : Nat
  listener : SocketAddress
  closed : Bool
deriving DecidableEq

/-- The addresses that accept connections, the proxy, and the connections so far. -/
structure Network where
  listeners : List SocketAddress
  proxy : Option ProxyServer
  accepted : List Accepted
deriving DecidableEq

namespace Network

/-- Where the proxy listens, if there is one. -/
def proxyAddress : SocketAddress := .v4 (Octets.padded 4 [127, 88, 0, 1]) 1080

/-- Whether an address accepts connections. -/
def listens (n : Network) (a : SocketAddress) : Bool :=
  n.listeners.contains a || (n.proxy.isSome && a == proxyAddress)

/-- A connection to the first of some addresses that accepts one, and where it was accepted. -/
def openFirst (n : Network) :
    List SocketAddress → Except ConnectFault (SocketAddress × SocketAddress)
  | [] => .error .unknownHost
  | a :: rest =>
    let first := do
      let listener ← route a
      if n.listens listener then .ok (listener, remoteOf a) else .error .refused
    match first, rest with
    | .ok found, _ => .ok found
    | .error e, [] => .error e
    | .error _, rest => openFirst n rest

/-- Opens a connection to a target. -/
def connect (n : Network) (target : String) :
    Network × Except ConnectFault (SocketAddress × Connection) :=
  match (resolve target).bind n.openFirst with
  | .error e => (n, .error e)
  | .ok (listener, remote) =>
    let number := n.accepted.length
    ({ n with accepted := n.accepted ++ [⟨number, listener, false⟩] },
      .ok (listener, ⟨number, some remote⟩))

/-- What comes of a dial. -/
inductive Answer
  | connected (c : Connection)
  | failed (cause : DialFault)
  /-- The other side keeps silent, a proxy perhaps until its replies are released. -/
  | silent (c : Connection) (target : Option Socks.Target)
deriving DecidableEq

/-- The end of a session with the proxy. -/
def sessionAnswer (c : Connection) (s : Socks.Session) : Answer :=
  match s.finish with
  | .ok _ => .connected c
  | .error e => .failed (.proxy e)

/-- Opens a connection to a target, straight away or through a proxy. -/
def dial (n : Network) : Dial → Network × Answer
  | .direct target =>
    match n.connect target with
    | (n, .error e) => (n, .failed (.connect e))
    | (n, .ok (_, c)) => (n, .connected c)
  | .through address target =>
    match Socks.Target.parse? target with
    | none => (n, .failed (.proxy (.badTarget target)))
    | some target =>
      match n.connect address with
      | (n, .error e) => (n, .failed (.connect e))
      | (n, .ok (listener, c)) =>
        match n.proxy with
        | some p =>
          if listener = proxyAddress then
            ({ n with proxy := some (p.ask target) },
              if p.holds target then .silent c (some target)
              else sessionAnswer c (p.session target))
          else (n, .silent c none)
        | none => (n, .silent c none)

/-- Lets the proxy give the replies it has held back. -/
def release (n : Network) : Network :=
  { n with proxy := n.proxy.map fun p => { p with released := true } }

/-- What has come of a dial by now. -/
def revisit (n : Network) : Answer → Answer
  | .silent c (some target) =>
    match n.proxy with
    | some p =>
      if p.holds target then .silent c (some target) else sessionAnswer c (p.session target)
    | none => .silent c (some target)
  | answer => answer

/-- The connections that an address has accepted and not closed. -/
def openAt (n : Network) (listener : SocketAddress) : List Nat :=
  (n.accepted.filter fun a => a.listener == listener && !a.closed).map (·.connection)

/-- An address closes the connections it has accepted. -/
def closeAt (n : Network) (listener : SocketAddress) : Network :=
  { n with
    accepted := n.accepted.map fun a =>
      if a.listener = listener then { a with closed := true } else a }

/-- Whether an address has accepted any connection. -/
def hasAccepted (n : Network) (listener : SocketAddress) : Bool :=
  n.accepted.any (·.listener == listener)

/-- The targets that the proxy was asked for, in order. -/
def asked? (n : Network) : Option (List String) := n.proxy.map fun p => p.asked.mergeSort

end Network

end MeshNode.Loopback
