import MeshNode.Loopback.Probing
import MeshNode.Peering.Service

/-!
# Peering on the loopback network

The peering service at work. After each thing that happens to it, every run goes on until it
waits for time to pass or for a proxy that keeps silent. The clock of timers and probes moves
by hand; real time hardly passes.
-/

namespace MeshNode.Loopback

open MeshNode.Peering

/-- What the service makes use of, in a world of type `σ`: the network, the peer table, and
calls. -/
structure Engine (σ : Type) where
  network : σ → Network
  setNetwork : σ → Network → σ
  remotes : σ → List String
  call : σ → Url → σ

/-- A round of probes that a run has begun, and when its time is over. -/
structure OpenRound where
  loop : Nat
  run : Nat
  round : Round
  deadline : Duration
deriving DecidableEq

/-- How long a probe may take unless told otherwise. -/
def probeTimeout : Duration := .ofSecs 3

/-- The service in its world. -/
structure Rehearsal (σ : Type) where
  world : σ
  service : Service
  rounds : List OpenRound := []
  /-- The clock of timers and probes. -/
  clock : Duration := .zero
  /-- The real time. -/
  now : Duration := .zero
  timeout : Duration := probeTimeout

namespace Rehearsal

variable {σ : Type} (e : Engine σ)

/-- Changes one of the loops. -/
def onLoop (r : Rehearsal σ) (k : Nat) (f : Loop → Loop) : Rehearsal σ :=
  { r with service := { r.service with loops := r.service.loops.modify k f } }

/-- What a run can see. -/
def view (r : Rehearsal σ) : View := ⟨r.now, r.clock, e.remotes r.world, firstPositions⟩

/-- A run begins its round of probes. -/
def beginRound (r : Rehearsal σ) (k i : Nat) (l : Loop) : Rehearsal σ :=
  let (network, round) := Round.begin (e.network r.world) l.proxy r.timeout l.catalog
  { r with
    world := e.setNetwork r.world network
    rounds := r.rounds ++ [⟨k, i, round, ⟨r.clock.nanos + r.timeout.nanos⟩⟩] }

/-- A run goes on after its round of probes, if that is over. -/
def endRound? (r : Rehearsal σ) (l : Loop) (o : OpenRound) : Option (Rehearsal σ) :=
  if o.round.isWaiting ∧ r.clock < o.deadline then none
  else
    let results := o.round.results l.proxy r.timeout l.catalog
    some { r.onLoop o.loop (·.probesEnd o.run results) with
      rounds := r.rounds.filter fun p => !(p.loop == o.loop && p.run == o.run) }

/-- Lets one run go on, if it can. -/
def proceed? (r : Rehearsal σ) (k i : Nat) : Option (Rehearsal σ) := do
  let l ← r.service.loops[k]?
  let run ← l.runs[i]?
  match run.stage with
  | .ended => none
  | .probing _ =>
    match r.rounds.find? fun o => o.loop == k && o.run == i with
    | none => some (r.beginRound e k i l)
    | some o => r.endRound? l o
  | .calling uri => some { r.onLoop k (·.callEnds i) with world := e.call r.world uri }
  | _ =>
    let r := { r with now := ⟨r.now.nanos + 1⟩ }
    some (r.onLoop k (·.segment (r.view e) i))

/-- All runs of all loops. -/
def allRuns (r : Rehearsal σ) : List (Nat × Nat) :=
  r.service.loops.zipIdx.flatMap fun (l, k) => (List.range l.runs.length).map (k, ·)

/-- Lets runs go on as long as any can. -/
def settle : (fuel : Nat) → Rehearsal σ → Rehearsal σ
  | 0, r => r
  | fuel + 1, r =>
    match r.allRuns.findSome? fun (k, i) => r.proceed? e k i with
    | none => r
    | some r => settle fuel r

/-- Lets runs go on until all wait: none goes on more than seven times. -/
def quiesce (r : Rehearsal σ) : Rehearsal σ := settle e (8 * r.allRuns.length + 1) r

/-- The owner does something with the service. -/
def act (r : Rehearsal σ) (f : Service → Except ModuleError Service) :
    Rehearsal σ × Except ModuleError Unit :=
  match f r.service with
  | .error cause => (r, .error cause)
  | .ok service => (quiesce e { r with service }, .ok ())

/-- The timers that are due fire. -/
def fireDue (clock : Duration) (l : Loop) : Loop :=
  let due := (List.range l.timers.length).filter fun t =>
    (l.timers[t]?.map fun x => decide (x.deadline ≤ clock)).getD false
  due.foldl Loop.fire l

/-- Time passes for timers and probes. -/
def advance (r : Rehearsal σ) (d : Duration) : Rehearsal σ :=
  let clock := ⟨r.clock.nanos + d.nanos⟩
  let service := { r.service with loops := r.service.loops.map (fireDue clock) }
  quiesce e { r with clock, service }

/-- The proxy gives the replies that it has held back. -/
def release (r : Rehearsal σ) : Rehearsal σ :=
  let network := (e.network r.world).release
  quiesce e { r with
    world := e.setNetwork r.world network
    rounds := r.rounds.map fun o => { o with round := o.round.revisit network } }

end Rehearsal

/-! ## A peer table set by hand -/

/-- A peer table that takes or refuses every call, and perhaps enters the peers it takes. -/
structure PeerTable where
  network : Network
  remotes : List String
  /-- Whether a peer that is called comes into the table. -/
  enters : Bool
  /-- Whether calls are refused. -/
  refuses : Bool
  calls : List Url
deriving DecidableEq

/-- The service at work with a peer table set by hand. -/
def PeerTable.engine : Engine PeerTable where
  network := PeerTable.network
  setNetwork t network := { t with network }
  remotes := PeerTable.remotes
  call t uri :=
    { t with
      calls := t.calls ++ [uri]
      remotes := if t.enters && !t.refuses then t.remotes ++ [uri.render] else t.remotes }

end MeshNode.Loopback
