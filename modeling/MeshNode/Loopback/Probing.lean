import MeshNode.Loopback.Network
import MeshNode.Peering.Ranking

/-!
# Probing on the loopback network

A round of probes as it goes on the loopback network: all dials begin at once, and the round
is over when every dial has been answered or the time for probes has passed.
-/

namespace MeshNode.Loopback

open MeshNode.Peering

/-- How long a connection takes on the loopback network, as far as anyone can tell. -/
def latency : Duration := ⟨1⟩

/-- A round of probes: the answers so far, in the order of the candidates, of which some
cannot be dialled. -/
structure Round where
  answers : List (Option Network.Answer)
deriving DecidableEq

namespace Round

/-- The dials of a round, one after the other. -/
def dialAll (proxy : Option Proxy) : Network → List Url → Network × List (Option Network.Answer)
  | n, [] => (n, [])
  | n, candidate :: rest =>
    let (n, answer) := match dialOf? proxy candidate with
      | none => (n, none)
      | some d =>
        let (n, answer) := n.dial d
        (n, some answer)
    let (n, answers) := dialAll proxy n rest
    (n, answer :: answers)

/-- Begins a round. Without any time for it, nothing is dialled. -/
def begin (n : Network) (proxy : Option Proxy) (timeout : Duration) (candidates : List Url) :
    Network × Round :=
  if timeout = .zero then (n, ⟨candidates.map fun _ => none⟩)
  else
    let (n, answers) := dialAll proxy n candidates
    (n, ⟨answers⟩)

/-- The round with the answers that have come by now. -/
def revisit (r : Round) (n : Network) : Round := ⟨r.answers.map (Option.map n.revisit)⟩

/-- Whether some dial is still to be answered. -/
def isWaiting (r : Round) : Bool :=
  r.answers.any fun
    | some (.silent _ _) => true
    | _ => false

/-- What has come of the dial to the candidate of a number. -/
def outcome (r : Round) (i : Nat) : DialOutcome :=
  match r.answers[i]? with
  | some (some (.connected _)) => .connected latency
  | some (some (.failed _)) => .failed
  | _ => .silent

/-- Why the dial to the candidate of a number has failed, if it has. -/
def cause (r : Round) (i : Nat) : String :=
  match r.answers[i]? with
  | some (some (.failed cause)) => cause.message
  | _ => ""

/-- The results of a round that is over. -/
def results (r : Round) (proxy : Option Proxy) (timeout : Duration) (candidates : List Url) :
    List ProbeResult :=
  probePeers proxy timeout (fun i _ => r.outcome i) id candidates

/-- What the probes of a round that is over have told. -/
def events (r : Round) (proxy : Option Proxy) (timeout : Duration) (candidates : List Url) :
    List ProbeEvent :=
  probeEvents proxy timeout (fun i _ => r.outcome i) r.cause candidates

end Round

/-- Probes some candidates and waits until the round is over. -/
def probe (n : Network) (proxy : Option Proxy) (timeout : Duration) (candidates : List Url) :
    Network × List ProbeEvent × List ProbeResult :=
  let (n, r) := Round.begin n proxy timeout candidates
  (n, r.events proxy timeout candidates, r.results proxy timeout candidates)

/-- The fastest of some candidates, and what is told of the search for them. -/
def closestPeers (n : Network) (proxy : Option Proxy) (timeout : Duration) (candidates : List Url)
    (count : Nat) : Network × List ProbeEvent × List Url :=
  let (n, told, results) := probe n proxy timeout candidates
  (n, told ++ [finishedEvent results], rankReachable results count)

end MeshNode.Loopback
