import MeshNode.Catalog
import MeshNode.Dial
import MeshNode.Duration
import MeshNode.Log
import MeshNode.Proxy

/-!
# Probing peers

A probe dials a peer and hangs up as soon as the connection stands. All candidates of a
round are dialled at once; whatever order the dials end in, the results stand in the order
of the candidates.
-/

namespace MeshNode.Peering

/-- What came of probing a candidate. An unreachable one has latency zero. -/
structure ProbeResult where
  candidate : Url
  reachable : Bool
  latency : Duration
deriving DecidableEq

/-- The result for a candidate that did not answer. -/
def ProbeResult.unreachable (candidate : Url) : ProbeResult := ⟨candidate, false, .zero⟩

/-- What comes of a dial. -/
inductive DialOutcome
  | connected (after : Duration)
  | failed
  | silent
deriving DecidableEq

/-- The connection that a probe of a candidate opens, if the candidate can be dialled. -/
def dialOf? (proxy : Option Proxy) (candidate : Url) : Option Dial := do
  if !Catalog.isSupported candidate then none
  let target ← candidate.endpoint?
  match proxy with
  | none => some (.direct target)
  | some p => some (.through p.address target)

/-- The result of a probe whose dial had the given outcome, if there was one. -/
def probeResult (timeout : Duration) (candidate : Url) (outcome : Option DialOutcome) :
    ProbeResult :=
  match outcome with
  | some (.connected after) =>
    if after ≤ timeout then ⟨candidate, true, after⟩ else .unreachable candidate
  | _ => .unreachable candidate

/-- Results in the order of their numbers, whatever order they came in. -/
def inOrder (completed : List (Nat × ProbeResult)) : List ProbeResult :=
  (completed.mergeSort fun a b => a.1 ≤ b.1).map (·.2)

/-- The numbered results of a round over the outcomes of single dials. -/
def probeAll (proxy : Option Proxy) (timeout : Duration)
    (outcome : Nat → Dial → DialOutcome) (candidates : List Url) : List (Nat × ProbeResult) :=
  candidates.zipIdx.map fun (candidate, i) =>
    (i, probeResult timeout candidate ((dialOf? proxy candidate).map (outcome i)))

/-- The results of a round whose probes complete in the order that `schedule` puts them. -/
def probePeers (proxy : Option Proxy) (timeout : Duration)
    (outcome : Nat → Dial → DialOutcome)
    (schedule : List (Nat × ProbeResult) → List (Nat × ProbeResult))
    (candidates : List Url) : List ProbeResult :=
  inOrder (schedule (probeAll proxy timeout outcome candidates))

/-! ## What a round tells -/

/-- What a round of probes tells about itself. -/
inductive ProbeEvent
  | notProbed (candidate : Url)
  | online (candidate : Url) (latency : Duration)
  | unreachable (candidate : Url) (cause : String)
  | timedOut (candidate : Url)
  | finished (probed reached : Nat)
deriving DecidableEq

/-- What is told about a candidate by its probe. -/
def candidateEntry (candidate : Url) (message : String) (fields : List (String × String)) :
    Log.Event :=
  ⟨.trace, "popura_services::autopeer::probe", message, ("peer", candidate.render) :: fields⟩

/-- The wording of what a round tells. -/
def ProbeEvent.entry : ProbeEvent → Log.Event
  | .notProbed candidate => candidateEntry candidate "unsupported scheme, not probed" []
  | .online candidate latency =>
    candidateEntry candidate "peer online"
      [("latency_ms", toString (latency.millis % UInt64.size))]
  | .unreachable candidate cause =>
    candidateEntry candidate "peer unreachable" [("error", cause)]
  | .timedOut candidate => candidateEntry candidate "probe timed out" []
  | .finished probed reached =>
    ⟨.debug, "popura_services::autopeer::select", "catalog probe finished",
      [("probed", toString probed), ("online", toString reached)]⟩

/-- What a probe tells whose dial had the given outcome, if there was one. `cause` is why the
dial failed, if it did. -/
def probeEvent? (timeout : Duration) (candidate : Url) (outcome : Option DialOutcome)
    (cause : String) : Option ProbeEvent :=
  if !Catalog.isSupported candidate then some (.notProbed candidate)
  else
    match outcome with
    | none => none
    | some (.connected after) =>
      some (if after ≤ timeout then .online candidate after else .timedOut candidate)
    | some .failed => some (.unreachable candidate cause)
    | some .silent => some (.timedOut candidate)

/-- What the probes of a round tell, in the order of the candidates. -/
def probeEvents (proxy : Option Proxy) (timeout : Duration) (outcome : Nat → Dial → DialOutcome)
    (cause : Nat → String) (candidates : List Url) : List ProbeEvent :=
  candidates.zipIdx.filterMap fun (candidate, i) =>
    probeEvent? timeout candidate ((dialOf? proxy candidate).map (outcome i)) (cause i)

/-- What is told in the end about the results of a round. -/
def finishedEvent (results : List ProbeResult) : ProbeEvent :=
  .finished results.length (results.countP (·.reachable))

end MeshNode.Peering
