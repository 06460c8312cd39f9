import MeshNode.Advertiser.Pacing
import MeshNode.Advertiser.Queue

/-!
# Unsolicited advertisements

The pacer puts a trigger into the queue at once and again after every delay. While the
queue is full it waits for room, and hears nothing else meanwhile. It ends when it is told
to while it waits for time to pass, when nobody will take its trigger, or when no duration is the
delay that comes next.
-/

namespace MeshNode.Advertiser.Pacer

/-- What the pacer does: it waits for room, or for a moment in milliseconds. -/
inductive Phase
  | sending
  | sleeping (wakeAt : Nat)
  | finished
deriving DecidableEq

/-- A pacer with its queue and its clock. -/
structure State where
  phase : Phase
  queue : TriggerQueue
  now : Nat
  /-- The number of the next advertisement. -/
  number : UInt32
  /-- How many delays it has begun: the place in its source of random numbers. -/
  drawn : Nat
  /-- Whether it was told to end. -/
  told : Bool
deriving DecidableEq

/-- The pacer before its first trigger. -/
def start (queue : TriggerQueue) : State := ⟨.sending, queue, 0, 0, 0, false⟩

/-- The greatest number of an advertisement. -/
def lastNumber : UInt32 := 0xffffffff

/-- The number after another. Counting ends at the last number and does not begin anew. -/
def nextNumber (i : UInt32) : UInt32 := if i = lastNumber then i else i + 1

namespace State

/-- Takes one step if it can: puts its trigger in and begins a delay, ends, or wakes. `draw`
gives the random part of each delay. -/
def step? (least greatest : Duration) (draw : Nat → Duration) (s : State) : Option State :=
  match s.phase with
  | .finished => none
  | .sending =>
    if s.queue.closed then some { s with phase := .finished }
    else if s.queue.isFull then none
    else
      match multicastDelay? s.number least greatest (draw s.drawn) with
      | none => some { s with queue := s.queue.push, phase := .finished }
      | some delay =>
        some { s with
          queue := s.queue.push
          phase := .sleeping (s.now + delay.millis)
          number := nextNumber s.number
          drawn := s.drawn + 1 }
  | .sleeping wakeAt =>
    if s.told then some { s with phase := .finished }
    else if wakeAt ≤ s.now then some { s with phase := .sending }
    else none

/-- Takes steps as long as it can. -/
def settle (least greatest : Duration) (draw : Nat → Duration) : (fuel : Nat) → State → State
  | 0, s => s
  | fuel + 1, s =>
    match step? least greatest draw s with
    | some s => settle least greatest draw fuel s
    | none => s

/-- Goes on as far as possible: after each trigger the queue has less room, and a delay
other than zero needs time to pass. -/
def quiesce (least greatest : Duration) (draw : Nat → Duration) (s : State) : State :=
  settle least greatest draw (2 * s.queue.capacity + 4) s

end State

end MeshNode.Advertiser.Pacer
