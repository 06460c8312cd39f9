import MeshNode.Advertiser.Queue
import MeshNode.Ndp.Decode

/-!
# Listening for solicitations

The listener turns each Router Solicitation from its own link into a trigger. No datagram
stops it, whatever its octets; a receive that fails makes it wait a moment. It ends when it
is told to, or when it has a trigger that nobody will take.
-/

namespace MeshNode.Advertiser

/-- A datagram and the hop limit it arrived with, if the socket tells. -/
structure Datagram where
  octets : List UInt8
  hopLimit : Option Nat
deriving DecidableEq

/-- What a receive gives. -/
inductive Received
  | datagram (d : Datagram)
  | failure
deriving DecidableEq

namespace Listener

/-- The size of the receive buffer; what is longer is cut. -/
def bufferSize : Nat := 1500

/-- The hop limit of a datagram that crossed no router. -/
def onLinkHopLimit : Nat := 255

/-- How long to wait after a receive that failed, in milliseconds. -/
def backOffMillis : Nat := 500

/-- Whether a datagram crossed no router, as far as can be told. -/
def isOnLink (hopLimit : Option Nat) : Bool := hopLimit.all (· == onLinkHopLimit)

/-- Whether octets spell a Router Solicitation. -/
def isSolicitation (octets : List UInt8) : Bool :=
  match Ndp.decode (octets.take bufferSize) with
  | .ok (.solicitation _) => true
  | _ => false

/-- Whether a datagram asks for an advertisement. -/
def asks (d : Datagram) : Bool := isSolicitation d.octets && isOnLink d.hopLimit

/-- What the listener does. -/
inductive Phase
  | receiving
  | backingOff
  | finished
deriving DecidableEq

/-- A listener with its counts and its queue. -/
structure State where
  phase : Phase
  stats : Stats
  queue : TriggerQueue
deriving DecidableEq

/-- The listener before its first receive. -/
def start (queue : TriggerQueue) : State := ⟨.receiving, {}, queue⟩

namespace State

/-- Takes the result of a receive. A full queue has an advertisement coming already. -/
def receive (s : State) : Received → State
  | .failure =>
    { s with
      phase := .backingOff
      stats := { s.stats with recvErrors := s.stats.recvErrors + 1 } }
  | .datagram d =>
    if asks d then
      { s with
        phase := if s.queue.closed then .finished else .receiving
        stats := { s.stats with solicitations := s.stats.solicitations + 1 }
        queue := if s.queue.closed then s.queue else s.queue.push }
    else s

/-- The end of the wait after a receive that failed. -/
def resume (s : State) : State :=
  match s.phase with
  | .backingOff => { s with phase := .receiving }
  | _ => s

/-- The listener is told to end. -/
def shutdown (s : State) : State := { s with phase := .finished }

end State

/-! ## On a socket -/

/-- A socket: whether the next receive fails, and the datagrams that wait. -/
structure Socket where
  broken : Bool
  inbox : List Datagram
deriving DecidableEq

/-- What the next receive gives, if anything is there. A failure leaves the datagrams. -/
def Socket.next? (k : Socket) : Option (Received × Socket) :=
  match k.inbox with
  | [] => none
  | d :: rest =>
    if k.broken then some (.failure, { k with broken := false })
    else some (.datagram d, { k with inbox := rest })

/-- A listener on a socket at a moment, in milliseconds, and the moment its wait ends. -/
structure Run where
  listener : State
  socket : Socket
  now : Nat
  wakeAt : Nat

namespace Run

/-- A run before its first receive. -/
def start (queue : TriggerQueue) : Run := ⟨Listener.start queue, ⟨false, []⟩, 0, 0⟩

/-- Goes on until the listener waits. Every receive takes a datagram or the failure. -/
def settle : (fuel : Nat) → Run → Run
  | 0, r => r
  | fuel + 1, r =>
    match r.listener.phase with
    | .finished => r
    | .backingOff =>
      if r.wakeAt ≤ r.now then settle fuel { r with listener := r.listener.resume } else r
    | .receiving =>
      match r.socket.next? with
      | none => r
      | some (received, socket) =>
        settle fuel
          { r with
            listener := r.listener.receive received
            socket
            wakeAt := r.now + backOffMillis }

/-- Goes on as far as possible. -/
def quiesce (r : Run) : Run := settle (2 * r.socket.inbox.length + 4) r

/-- A datagram arrives. -/
def arrive (r : Run) (d : Datagram) : Run :=
  quiesce { r with socket := { r.socket with inbox := r.socket.inbox ++ [d] } }

/-- The next receive shall fail. -/
def breakSocket (r : Run) : Run := { r with socket := { r.socket with broken := true } }

/-- Time passes. -/
def advance (r : Run) (millis : Nat) : Run := quiesce { r with now := r.now + millis }

/-- The listener is told to end. -/
def shutdown (r : Run) : Run := { r with listener := r.listener.shutdown }

/-- Changes the queue from outside. -/
def onQueue (r : Run) (f : TriggerQueue → TriggerQueue) : Run :=
  { r with listener := { r.listener with queue := f r.listener.queue } }

end Run

end Listener

end MeshNode.Advertiser
