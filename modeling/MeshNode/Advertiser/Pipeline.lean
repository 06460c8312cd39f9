import MeshNode.Advertiser.Listener
import MeshNode.Advertiser.Pacer
import MeshNode.Advertiser.Sender

/-!
# The pipeline

The listener and the pacer put triggers into one queue with room for a single one, and the
sender takes them out. Each step of a pipeline is a step of one of the three, in any order.
-/

namespace MeshNode.Advertiser

/-- A running pipeline. -/
structure Pipeline where
  /-- The advertisement that every trigger sends. -/
  packet : List UInt8
  listener : Listener.Phase
  /-- Whether the pacer has a trigger to put in; else it waits for time to pass. -/
  pacerDue : Bool
  sender : Sender.Phase
  queue : TriggerQueue
  stats : Stats
deriving DecidableEq

namespace Pipeline

/-- The room in the queue. -/
def capacity : Nat := 1

/-- A pipeline before its first step, with the counts of those before it. -/
def start (packet : List UInt8) (stats : Stats) : Pipeline :=
  ⟨packet, .receiving, true, .waiting, .empty capacity, stats⟩

/-- The steps of a pipeline. -/
inductive Event
  | received (r : Received)
  | backOffEnds
  | pacerWakes
  | pacerPosts
  | senderTakes
  | sendEnds (success : Bool)
deriving DecidableEq

/-- The listener as it stands. -/
def listenerState (p : Pipeline) : Listener.State := ⟨p.listener, p.stats, p.queue⟩

/-- The pipeline with another state of its listener. -/
def withListener (p : Pipeline) (s : Listener.State) : Pipeline :=
  { p with listener := s.phase, stats := s.stats, queue := s.queue }

/-- The sender as it stands. -/
def senderState (p : Pipeline) : Sender.State := ⟨p.sender, p.stats, p.queue, true⟩

/-- The pipeline with another state of its sender. -/
def withSender (p : Pipeline) (s : Sender.State) : Pipeline :=
  { p with sender := s.phase, stats := s.stats, queue := s.queue }

/-- Takes one step, if it can come now. -/
def step? (p : Pipeline) : Event → Option Pipeline
  | .received r =>
    match p.listener with
    | .receiving => some (p.withListener (p.listenerState.receive r))
    | _ => none
  | .backOffEnds =>
    match p.listener with
    | .backingOff => some (p.withListener p.listenerState.resume)
    | _ => none
  | .pacerWakes => if p.pacerDue then none else some { p with pacerDue := true }
  | .pacerPosts =>
    if p.pacerDue && !p.queue.isFull then
      some { p with pacerDue := false, queue := p.queue.push }
    else none
  | .senderTakes =>
    match p.sender with
    | .waiting => (p.queue.pop?).map fun _ => p.withSender p.senderState.take
    | _ => none
  | .sendEnds success =>
    match p.sender with
    | .sending => some (p.withSender (p.senderState.sent success))
    | _ => none

/-- The step that comes next of itself, if one does; every send ends in the same way. -/
def next? (success : Bool) (p : Pipeline) : Option Pipeline :=
  p.step? (.sendEnds success) <|> p.step? .senderTakes <|> p.step? .pacerPosts

/-- Takes the steps that come of themselves. -/
def settle (success : Bool) : (fuel : Nat) → Pipeline → Pipeline
  | 0, p => p
  | fuel + 1, p =>
    match next? success p with
    | some p => settle success fuel p
    | none => p

/-- Goes on until something has to come from outside: each trigger takes two steps, the one
of the pacer three, and a send that goes on takes one. -/
def quiesce (success : Bool) (p : Pipeline) : Pipeline := settle success (2 * p.queue.queued + 4) p

/-- Receives one datagram and goes on. -/
def receive (success : Bool) (d : Datagram) (p : Pipeline) : Pipeline :=
  match p.step? (.received (.datagram d)) with
  | some p => p.quiesce success
  | none => p

end Pipeline

end MeshNode.Advertiser
