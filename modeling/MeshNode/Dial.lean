import MeshNode.Net.Ipv6
import MeshNode.Socks.Session

/-!
# Dialling

A connection is opened to a target straight away or through a proxy. This module says which
connections there are to open and how opening one fails.
-/

namespace MeshNode

/-- A connection to open. -/
inductive Dial
  | direct (target : String)
  | through (proxy target : String)
deriving DecidableEq

/-- Why a connection cannot be opened. -/
inductive ConnectFault
  | refused
  | unreachable
  | needsInterface
  | unknownHost
deriving DecidableEq

/-- The text of a fault. -/
def ConnectFault.message : ConnectFault → String
  | .refused => "Connection refused (os error 111)"
  | .unreachable => "Network is unreachable (os error 101)"
  | .needsInterface => "Invalid argument (os error 22)"
  | .unknownHost => "failed to lookup address information: Temporary failure in name resolution"

/-- Why a dial fails: there is no connection, or the proxy gives none. -/
inductive DialFault
  | connect (cause : ConnectFault)
  | proxy (cause : Socks.SocksError)
deriving DecidableEq

/-- The text of a fault. -/
def DialFault.message : DialFault → String
  | .connect cause => cause.message
  | .proxy cause => cause.message

/-- The address of one end of a connection. -/
inductive SocketAddress
  | v4 (address : Ipv4) (port : Nat)
  | v6 (address : Ipv6) (port : Nat)
deriving DecidableEq

/-- The text of an address, an IPv6 one in brackets. -/
def SocketAddress.render : SocketAddress → String
  | .v4 address port => address.render ++ ":" ++ toString port
  | .v6 address port => "[" ++ address.render ++ "]:" ++ toString port

/-- A connection that has been opened: its number, and the address of its other end, unless that
has gone again and its address cannot be told. -/
structure Connection where
  number : Nat
  remote : Option SocketAddress
deriving DecidableEq

end MeshNode
