import MeshNode.Advertiser.Queue

/-!
# Sending advertisements

The sender sends one advertisement for each trigger it takes and counts what comes of it.
It ends when it is told to, or when the queue is empty and nobody is left to fill it.
-/

namespace MeshNode.Advertiser.Sender

/-- What the sender does. -/
inductive Phase
  | waiting
  | sending
  | finished
deriving DecidableEq

/-- A sender with its counts and its queue. -/
structure State where
  phase : Phase
  stats : Stats
  queue : TriggerQueue
  /-- Whether anybody is left to fill the queue. -/
  fed : Bool
deriving DecidableEq

/-- The sender before its first trigger. -/
def start (queue : TriggerQueue) : State := ⟨.waiting, {}, queue, true⟩

namespace State

/-- Takes a trigger, if there is one; without one and without anybody to send one, it ends. -/
def take (s : State) : State :=
  match s.phase, s.queue.pop? with
  | .waiting, some queue => { s with phase := .sending, queue }
  | .waiting, none => if s.fed then s else { s with phase := .finished }
  | _, _ => s

/-- The end of a send. -/
def sent (s : State) (success : Bool) : State :=
  match s.phase with
  | .sending =>
    { s with
      phase := .waiting
      stats := if success then { s.stats with advertisements := s.stats.advertisements + 1 }
        else { s.stats with sendErrors := s.stats.sendErrors + 1 } }
  | _ => s

/-- The sender is told to end. Nothing takes triggers any more. -/
def shutdown (s : State) : State := { s with phase := .finished, queue := s.queue.close }

/-- Puts triggers in one after the other; how many fitted. -/
def trigger (s : State) (times : Nat) : State × Nat :=
  if s.queue.closed ∨ !s.fed then (s, 0)
  else
    let room := s.queue.capacity - s.queue.queued
    let accepted := min times room
    ({ s with queue := { s.queue with queued := s.queue.queued + accepted } }, accepted)

/-- Takes triggers and sends, as long as there are any; every send ends in the same way. The
number counts the sends. -/
def settle (success : Bool) : (fuel : Nat) → State → State × Nat
  | 0, s => (s, 0)
  | fuel + 1, s =>
    let s := s.take
    match s.phase with
    | .sending =>
      let (s, n) := settle success fuel (s.sent success)
      (s, n + 1)
    | _ => (s, 0)

/-- Goes on as far as possible. -/
def quiesce (success : Bool) (s : State) : State × Nat := settle success (s.queue.queued + 1) s

end State

/-- Where advertisements go: the group of all nodes on the link of an index. -/
def destinationText (index : Nat) : String :=
  if index = 0 then "[ff02::1]:0" else s!"[ff02::1%{index}]:0"

end MeshNode.Advertiser.Sender
