import MeshNode.Peering.Ranking
import MeshNode.Peering.Remote
import MeshNode.Settings.Basic

/-!
# The peering loop

While it is on, the loop looks at the peer table again and again. A node that has been
without an Internet peer for too long probes its catalog and calls one of the fastest peers
that answered. One look with all that follows from it is a *run*; at its end a run sets the
timer that begins the next.

Runs and the owner of the loop work side by side on what they share. Each step here is one
that nothing can interrupt: a look at a shared value, or a change of one. Starting and
stopping begin a new generation, and a run of an older one goes quiet at its next look.
-/

namespace MeshNode.Peering

/-! ## Runs and timers -/

/-- Where a run stands. -/
inductive Stage
  /-- It is about to look whether the loop is on. -/
  | entry
  /-- It is about to look whether its generation is the present one. -/
  | entryGeneration
  /-- It is about to look at the settings. -/
  | limits
  /-- It is about to look at the peer table. -/
  | look (timeout : Duration) (candidates : Nat)
  /-- It waits for its probes. -/
  | probing (candidates : Nat)
  | resumed (closest : List Url)
  | resumedGeneration (closest : List Url)
  /-- It is about to note its choice. -/
  | record (uri : Url)
  /-- It is about to call its choice. -/
  | call (uri : Url)
  /-- It waits for its call. -/
  | calling (uri : Url)
  | closing
  | closingGeneration
  /-- It is about to look how long to wait. -/
  | delay
  /-- It is about to make a timer. -/
  | arm (delay : Duration)
  /-- It is about to put its timer in the place of the one before. -/
  | replace (timer : Nat)
  | ended
deriving DecidableEq

/-- A run. -/
structure Run where
  generation : Nat
  stage : Stage
deriving DecidableEq

/-- Whether a timer is still to fire. -/
inductive TimerStatus
  | waiting
  | fired
  | aborted
deriving DecidableEq

/-- A timer, which begins a run of its generation at its deadline. -/
structure Timer where
  generation : Nat
  deadline : Duration
  status : TimerStatus
deriving DecidableEq

/-- What the owner of the loop is doing. -/
inductive Control
  | idle
  /-- It starts the loop: it is about to look whether the loop may be on, -/
  | readEnable
  /-- to mark it as on, -/
  | markStarted
  /-- to begin a generation, -/
  | nextGeneration
  /-- and to begin the first run of it. -/
  | spawn (generation : Nat)
  /-- It stops the loop, perhaps to start it with new settings: it is about to mark it as off, -/
  | markStopped (next : Option PeeringSettings)
  /-- to begin a generation without runs, -/
  | retire (next : Option PeeringSettings)
  /-- and to abort the timer. -/
  | takePending (next : Option PeeringSettings)
  /-- It is about to put new settings in the place of the old. -/
  | configure (settings : PeeringSettings)
deriving DecidableEq

/-! ## The loop -/

/-- The loop: what its runs and its owner share, and all runs and timers so far. What
fewer than `2 ^ 64` steps can count fits in words of 64 bits (`generation_after_le`,
`attempts_after_le`). -/
structure Loop where
  catalog : List Url
  proxy : Option Proxy
  settings : PeeringSettings
  /-- When an Internet peer was last seen or a round of probes last began. -/
  hadPeers : Option Duration := none
  lastCandidate : Option Url := none
  attempts : Nat := 0
  generation : Nat := 0
  started : Bool := false
  /-- The timer that stopping aborts. -/
  pending : Option Nat := none
  runs : List Run := []
  timers : List Timer := []
  /-- The calls made so far. -/
  calls : List Url := []
  control : Control := .idle
deriving DecidableEq

/-- What a step can see beyond the loop: the time, the clock of the timers, the peer table,
and the dice. -/
structure View where
  now : Duration
  clock : Duration
  remotes : List String
  draw : Sampler

/-- The longest that a timer waits when its delay is beyond what a clock can count. -/
def farFuture : Duration := .ofSecs (86400 * 365 * 30)

/-- How long a timer waits. -/
def timerDelay (d : Duration) : Duration := if d.secs < 0x8000000000000000 then d else farFuture

namespace Loop

/-- The loop with another stage of a run. -/
def setStage (l : Loop) (i : Nat) (stage : Stage) : Loop :=
  { l with runs := l.runs.modify i fun r => { r with stage } }

/-- Whether the node has been without Internet peers for longer than a time, or always. -/
def isOverdue (l : Loop) (now timeout : Duration) : Bool :=
  match l.hadPeers with
  | none => true
  | some t => decide (t.nanos + timeout.nanos < now.nanos)

/-- The URL under which a peer is called: behind the proxy, if there is one. -/
def peerUrl (l : Loop) (peer : Url) : Except ProxyError Url :=
  match l.proxy with
  | some p => p.urlBehind peer
  | none => .ok peer

/-- The URL to call, chosen among the fastest peers. -/
def choose? (l : Loop) (draw : Sampler) (closest : List Url) : Option Url :=
  match randomPick draw closest 1 with
  | [] => none
  | chosen :: _ => (l.peerUrl chosen).toOption

/-- A timer fires no more. -/
def abort (l : Loop) (timer : Option Nat) : Loop :=
  match timer with
  | none => l
  | some t =>
    { l with
      timers := l.timers.modify t fun x =>
        if x.status = .waiting then { x with status := .aborted } else x }

/-- A run looks at the peer table. It takes note of an Internet peer, and of the round of
probes that it begins for want of one. -/
def look (l : Loop) (v : View) (i : Nat) (timeout : Duration) (candidates : Nat) : Loop :=
  if hasInternetPeer v.remotes then { l with hadPeers := some v.now }.setStage i .closing
  else if l.isOverdue v.now timeout then
    { l with hadPeers := some v.now }.setStage i (.probing candidates)
  else l.setStage i .closing

/-- A run makes the timer of the next. -/
def makeTimer (l : Loop) (v : View) (i generation : Nat) (delay : Duration) : Loop :=
  let timer : Timer := ⟨generation, ⟨v.clock.nanos + (timerDelay delay).nanos⟩, .waiting⟩
  { l with timers := l.timers ++ [timer] }.setStage i (.replace l.timers.length)

/-- One step of a run. While it waits it takes none. -/
def step (v : View) (i : Nat) (l : Loop) : Loop :=
  match l.runs[i]? with
  | none => l
  | some ⟨generation, stage⟩ =>
    match stage with
    | .entry => l.setStage i (if l.started then .entryGeneration else .ended)
    | .entryGeneration => l.setStage i (if l.generation = generation then .limits else .ended)
    | .limits => l.setStage i (.look l.settings.timeout l.settings.maxCandidates)
    | .look timeout candidates => l.look v i timeout candidates
    | .probing _ => l
    | .resumed closest =>
      l.setStage i (if l.started then .resumedGeneration closest else .closing)
    | .resumedGeneration closest =>
      l.setStage i <|
        if l.generation = generation then
          match l.choose? v.draw closest with
          | some uri => .record uri
          | none => .closing
        else .closing
    | .record uri =>
      { l with lastCandidate := some uri, attempts := l.attempts + 1 }.setStage i (.call uri)
    | .call uri => { l with calls := l.calls ++ [uri] }.setStage i (.calling uri)
    | .calling _ => l
    | .closing => l.setStage i (if l.started then .closingGeneration else .ended)
    | .closingGeneration => l.setStage i (if l.generation = generation then .delay else .ended)
    | .delay => l.setStage i (.arm l.settings.pollInterval)
    | .arm delay => l.makeTimer v i generation delay
    | .replace timer => { l.abort l.pending with pending := some timer }.setStage i .ended
    | .ended => l

/-- The probes of a run end. -/
def probesEnd (l : Loop) (i : Nat) (results : List ProbeResult) : Loop :=
  match l.runs[i]? with
  | some ⟨_, .probing candidates⟩ => l.setStage i (.resumed (rankReachable results candidates))
  | _ => l

/-- The call of a run ends, in whatever way. -/
def callEnds (l : Loop) (i : Nat) : Loop :=
  match l.runs[i]? with
  | some ⟨_, .calling _⟩ => l.setStage i .closing
  | _ => l

/-- A timer fires and begins a run. -/
def fire (l : Loop) (t : Nat) : Loop :=
  match l.timers[t]? with
  | some ⟨generation, _, .waiting⟩ =>
    { l with
      timers := l.timers.modify t fun x => { x with status := .fired }
      runs := l.runs ++ [⟨generation, .entry⟩] }
  | _ => l

/-! ## The owner -/

/-- What the owner does after it has stopped the loop. -/
def afterStop : Option PeeringSettings → Control
  | none => .idle
  | some settings => .configure settings

/-- One step of the owner. -/
def controlStep (l : Loop) : Loop :=
  match l.control with
  | .idle => l
  | .readEnable => { l with control := if l.settings.enable then .markStarted else .idle }
  | .markStarted =>
    if l.started then { l with control := .idle }
    else { l with started := true, control := .nextGeneration }
  | .nextGeneration =>
    { l with generation := l.generation + 1, control := .spawn (l.generation + 1) }
  | .spawn generation => { l with runs := l.runs ++ [⟨generation, .entry⟩], control := .idle }
  | .markStopped next =>
    if l.started then { l with started := false, control := .retire next }
    else { l with control := afterStop next }
  | .retire next => { l with generation := l.generation + 1, control := .takePending next }
  | .takePending next => { l.abort l.pending with pending := none, control := afterStop next }
  | .configure settings => { l with settings, control := .readEnable }

/-! ## Without interruption -/

/-- The most steps that a run takes from one wait to the next. -/
def segmentSteps : Nat := 9

/-- A run goes on until it waits, and nothing comes in between. -/
def segment (v : View) (i : Nat) (l : Loop) : Loop := Nat.repeat (step v i) segmentSteps l

/-- The owner starts the loop, and nothing comes in between. -/
def start (l : Loop) : Loop := Nat.repeat controlStep 4 { l with control := .readEnable }

/-- The owner stops the loop, and nothing comes in between. -/
def stop (l : Loop) : Loop := Nat.repeat controlStep 3 { l with control := .markStopped none }

/-- The owner gives the loop new settings, and nothing comes in between. -/
def update (l : Loop) (settings : PeeringSettings) : Loop :=
  Nat.repeat controlStep 8 { l with control := .markStopped (some settings) }

end Loop

end MeshNode.Peering
