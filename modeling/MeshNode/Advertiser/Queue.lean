/-!
# Trigger queues

What asks for an advertisement and what sends it are joined by a bounded queue of triggers,
which are all alike, so that only their number counts.
-/

namespace MeshNode.Advertiser

/-- A bounded queue of triggers. A closed queue takes nothing more. -/
structure TriggerQueue where
  capacity : Nat
  queued : Nat
  closed : Bool
deriving DecidableEq

namespace TriggerQueue

/-- An open, empty queue. -/
def empty (capacity : Nat) : TriggerQueue := ⟨capacity, 0, false⟩

/-- Whether there is no room. -/
def isFull (q : TriggerQueue) : Bool := q.capacity ≤ q.queued

/-- Puts one trigger in, if there is room. -/
def push (q : TriggerQueue) : TriggerQueue :=
  if q.isFull then q else { q with queued := q.queued + 1 }

/-- Takes one trigger out, if there is one. -/
def pop? (q : TriggerQueue) : Option TriggerQueue :=
  if q.queued = 0 then none else some { q with queued := q.queued - 1 }

/-- Takes all triggers out. -/
def drain (q : TriggerQueue) : TriggerQueue := { q with queued := 0 }

/-- Closes the queue; the triggers in it are gone. -/
def close (q : TriggerQueue) : TriggerQueue := { q with queued := 0, closed := true }

/-- How many triggers wait, unless the queue is closed. -/
def pending? (q : TriggerQueue) : Option Nat := if q.closed then none else some q.queued

end TriggerQueue

/-- What the tasks of an advertiser have counted. The counts of fewer than `2 ^ 64` steps fit in words
of 64 bits (`total_after_le`). -/
structure Stats where
  solicitations : Nat := 0
  advertisements : Nat := 0
  sendErrors : Nat := 0
  recvErrors : Nat := 0
deriving DecidableEq

/-- All that was counted. -/
def Stats.total (s : Stats) : Nat :=
  s.solicitations + s.advertisements + s.sendErrors + s.recvErrors

end MeshNode.Advertiser
