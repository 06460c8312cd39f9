import MeshNode.Links.Table
import MeshNode.Loopback.Network

/-!
# Links on the loopback network

The link table at work: calls dial on the loopback network, and readers notice when the
other side closes a connection.
-/

namespace MeshNode.Loopback

open MeshNode.Links

/-- The network and the links on it. -/
structure Linked where
  network : Network
  exchange : Exchange
deriving DecidableEq

namespace Linked

/-- A network without links. -/
def start (network : Network) : Linked := ⟨network, .empty⟩

/-- What a call makes of the answer to its dial, if there is one. -/
def dialResult? (uri : Url) : Network.Answer → Option (Except CallError Connection)
  | .connected c => some (.ok c)
  | .failed cause => some (.error (.dial uri cause))
  | .silent _ _ => none

/-- A call dials. -/
def dial (l : Linked) (i : Nat) : Linked :=
  match l.exchange.calls[i]? with
  | some ⟨uri, .dialing⟩ =>
    match dialOf uri with
    | .error e => { l with exchange := l.exchange.dialEnds i (.error e) }
    | .ok d =>
      let (network, answer) := l.network.dial d
      match dialResult? uri answer with
      | some result => ⟨network, l.exchange.dialEnds i result⟩
      | none => { l with network }
  | _ => l

/-- Makes calls at the same time: all look into the table before any link is entered. -/
def callAll (l : Linked) (uris : List Url) : Linked × List (Except CallError Nat) :=
  let first := l.exchange.calls.length
  let numbers := (List.range uris.length).map (first + ·)
  let x := numbers.foldl Exchange.check (uris.foldl Exchange.begin l.exchange)
  let l := numbers.foldl dial { l with exchange := x }
  let x := numbers.foldl Exchange.enter l.exchange
  ({ l with exchange := x }, numbers.filterMap x.result?)

/-- An address closes the connections it has accepted; how many there were. -/
def remoteClose (l : Linked) (listener : SocketAddress) : Linked × Nat :=
  let connections := l.network.openAt listener
  let x := connections.foldl Exchange.hangUp l.exchange
  (⟨l.network.closeAt listener, x.settle⟩, connections.length)

/-- An address sends to the connections it has accepted; how many there are. Readers take
what comes and drop it. -/
def remoteSend (l : Linked) (listener : SocketAddress) : Nat := (l.network.openAt listener).length

/-- Closes all links. -/
def closeAll (l : Linked) : Linked := { l with exchange := l.exchange.closeAll.settle }

end Linked

end MeshNode.Loopback
