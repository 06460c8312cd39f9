import MeshNode.Advertiser.Segment
import MeshNode.Control
import MeshNode.Loopback.Links
import MeshNode.Loopback.Peering
import MeshNode.Settings.Layers

/-!
# The daemon

One run of the daemon: it explains itself, prints new settings, or runs a node. A node dials
its peers, sets up and starts its services, and answers on its administration port. What the
daemon writes to its log stands before everything that it prints.
-/

namespace MeshNode.Daemon

open MeshNode.CommandLine MeshNode.Loopback

/-! ## New settings -/

/-- Among how many of the fastest peers new settings choose. -/
def candidateCount : Nat := 10

/-- The default settings with some of the fastest peers in them. -/
def newSettings (draw : Peering.Sampler) (closest : List Url) (count : Nat) : Settings :=
  { node := { peers := (Peering.randomPick draw closest count).map Url.render } }

/-- Prints new settings. -/
def printSettings (s : Settings) : Outcome :=
  match s.render? with
  | some text => .success text
  | none => .failure [SettingsError.unprintable.message]

/-- A search for the fastest peers: through a proxy, if there is one, and for so many of them at
most. It changes the network, and tells what it finds. -/
abbrev Search := Network → Option Proxy → Nat → Network × List Peering.ProbeEvent × List Url

/-- The search among the peers of a catalog. -/
def searchAmong (catalog : List Url) : Search := fun network proxy =>
  closestPeers network proxy probeTimeout catalog

/-- The search among the public peers. -/
def publicSearch : Search := searchAmong Catalog.publicPeers

/-- What is told if no peer has answered. -/
def nobodyAnswered : Log.Event :=
  ⟨.warn, "popurad", "no public peer answered, generating config without peers", []⟩

/-- What is told of a search and of what it found. -/
def searchEvents (told : List Peering.ProbeEvent) (closest : List Url) : List Log.Event :=
  told.map (·.entry) ++ if closest = [] then [nobodyAnswered] else []

/-- Makes new settings with some of the fastest peers, which are found through the proxy that the
environment names. -/
def generate (log : Log.Subscriber) (draw : Peering.Sampler) (search : Search) (env : Environment)
    (network : Network) (count : Nat) : Network × Outcome :=
  if count = 0 then (network, printSettings {})
  else
    match Proxy.ofEnvironment env with
    | .error e => (network, .failure ["invalid ALL_PROXY", e.message])
    | .ok proxy =>
      let (network, told, closest) := search network proxy candidateCount
      let printed := log.text env (searchEvents told closest)
      (network, (printSettings (newSettings draw closest count)).after printed)

/-! ## A node -/

/-- Links as the peering service makes use of them. -/
def linkEngine : Engine Linked where
  network := Linked.network
  setNetwork l network := { l with network }
  remotes l := l.exchange.table.peers.map (·.remote)
  call l uri := (l.callAll [uri]).1

/-- A running node. -/
structure Node where
  settings : Settings
  peering : Rehearsal Linked
  advertiser : Advertiser.Segment

/-- Starts a node with a key, on a network and on the interfaces of its machine. -/
def launch (env : Environment) (network : Network) (interfaces : Interfaces) (key : NodeKey)
    (settings : Settings) : Node :=
  let uris := settings.node.peers.filterMap fun text => (Url.parse text).toOption
  let links := ((Linked.start network).callAll uris).1
  let idle : Rehearsal Linked := { world := links, service := {} }
  let (peering, result) := idle.act linkEngine (·.init env settings.autopeering)
  let peering := if result.isOk then (peering.act linkEngine (·.start)).1 else peering
  let advertiser : Advertiser.Segment := ⟨interfaces, {}⟩
  { settings
    peering
    advertiser := ((advertiser.init key settings.radv).start).1 }

namespace Node

/-- The hooks of a node. -/
def hooks (n : Node) : List Admin.Hook :=
  n.peering.service.hooks n.peering.now ++ n.advertiser.service.hooks

/-- The hooks of a node as its administration interface has them. -/
def registry (n : Node) : Admin.Registry :=
  n.hooks.foldl (fun r h => match r.add h with | .ok r => r | .error _ => r) .empty

/-- What answers on the ports of a node's machine. -/
def servers (n : Node) : Control.Servers := fun port =>
  if port = n.settings.node.adminPort ∧ port ≠ 0 then some (Admin.respond n.registry) else none

/-- The network of a node. -/
def network (n : Node) : Network := n.peering.world.network

end Node

/-! ## A run -/

/-- What the daemon finds on its machine. -/
structure Machine where
  env : Environment
  files : FileTree
  network : Network
  interfaces : Interfaces

/-- What comes of a run: it ends by itself, or a node runs. -/
inductive Result
  | ended (machine : Machine) (outcome : Outcome)
  | running (machine : Machine) (node : Node)

/-- Runs a node with the settings that hold. `ephemeral` is the key of a node that has none. What
a node that runs writes to the log is not told. -/
def runNode (log : Log.Subscriber) (m : Machine) (ephemeral : NodeKey) (args : DaemonArgs) :
    Result :=
  let printed := log.text m.env (Settings.eventsForDaemon m.env m.files)
  match Settings.forDaemon m.env m.files args with
  | (files, .error e) =>
    .ended { m with files } <|
      Outcome.after printed <|
        .failure ["invalid configuration", (SettingsError.invalid e).message]
  | (files, .ok settings) =>
    match settings.publicKey with
    | .error e =>
      .ended { m with files } (Outcome.after printed (.failure [(SettingsError.invalid e).message]))
    | .ok key =>
      let node := launch m.env m.network m.interfaces (key.getD ephemeral) settings
      .running { m with files, network := node.network } node

/-- One run of the daemon. It writes to a log, draws lots, and may search for peers. -/
def run (log : Log.Subscriber) (draw : Peering.Sampler) (search : Search) (m : Machine)
    (ephemeral : NodeKey) (words : List String) : Result :=
  match DaemonArgs.parse words with
  | .error e => .ended m (.failure e.parts)
  | .ok args =>
    if args.help then .ended m (.success daemonUsage)
    else if args.genconf then
      let (network, outcome) := generate log draw search m.env m.network args.withpeers
      .ended { m with network } outcome
    else runNode log m ephemeral args

end MeshNode.Daemon
