import MeshNode.Socks.Session

/-!
# A proxy on the loopback network

A proxy that answers from a script: the method it chooses, and its reply to each target. It
hangs up unless it has chosen to go on without authentication and has then granted the
connection. A reply may be held back until all are released.
-/

namespace MeshNode.Loopback

open MeshNode.Socks

/-- A reply, and whether it is held back. -/
structure ProxyReply where
  octets : List UInt8
  held : Bool
deriving DecidableEq

/-- A proxy with its script and the targets it was asked for so far. -/
structure ProxyServer where
  method : List UInt8
  replies : List (String × ProxyReply)
  otherwise : ProxyReply
  released : Bool
  asked : List String
deriving DecidableEq

namespace ProxyServer

/-- The choice to go on without authentication. -/
def plainMethod : List UInt8 := [5, 0]

/-- The reply that refuses a connection. -/
def refusal : List UInt8 := [5, 5, 0, 1, 0, 0, 0, 0, 0, 0]

/-- The reply to a target. -/
def replyTo (p : ProxyServer) (target : String) : ProxyReply :=
  (p.replies.lookup target).getD p.otherwise

/-- The request that reaches the proxy from a client that wants a target. -/
def request? (p : ProxyServer) (target : Target) : Option Request :=
  if p.method.take 2 = plainMethod then target.request? else none

/-- The client's session once the proxy has answered. -/
def session (p : ProxyServer) (target : Target) : Session :=
  let s := (Session.start target).feed p.method
  match p.request? target with
  | none => s
  | some r => s.feed (p.replyTo r.render).octets

/-- Whether the reply to a target is held back for now. -/
def holds (p : ProxyServer) (target : Target) : Bool :=
  match p.request? target with
  | none => false
  | some r => (p.replyTo r.render).held && !p.released

/-- The proxy after a client has asked for a target. -/
def ask (p : ProxyServer) (target : Target) : ProxyServer :=
  match p.request? target with
  | none => p
  | some r => { p with asked := p.asked ++ [r.render] }

end ProxyServer

end MeshNode.Loopback
