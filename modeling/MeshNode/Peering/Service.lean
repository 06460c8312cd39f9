import MeshNode.Admin.Registry
import MeshNode.Module
import MeshNode.Peering.Loop

/-!
# The peering service

The service owns a peering loop. It is given the catalog and the proxy of the loop when it
is set up; setting it up again leaves the loop it had to itself, on or off, and begins one
of its own.
-/

namespace MeshNode.Peering

/-- The service. The loop it owns is the last one. -/
structure Service where
  /-- A catalog in place of the public one. -/
  catalog : Option (List Url) := none
  /-- A proxy in place of the environment's. -/
  proxy : Option Proxy := none
  loops : List Loop := []
deriving DecidableEq

/-- The state of a loop as reported to the administrator at a time. -/
def Loop.report (l : Loop) (now : Duration) : Json :=
  let text : Option String → Json := fun t => (t.map Json.str).getD .null
  Json.ofMembers [
    ("started", .bool l.started),
    ("seconds_since_had_peers", match l.hadPeers with
      | none => .null
      | some t => Json.ofNat (Duration.mk (now.nanos - t.nanos)).secs),
    ("last_candidate", text (l.lastCandidate.map (·.render))),
    ("attempts", Json.ofNat l.attempts),
    ("catalog_size", Json.ofNat l.catalog.length),
    ("proxy", text (l.proxy.map (·.url.render)))]

namespace Service

/-- The name of the service. -/
def name : String := "autopeering"

/-- The loop that the service owns, once it was set up. -/
def loop? (s : Service) : Option Loop := s.loops.getLast?

/-- Whether the loop is on. -/
def isStarted (s : Service) : Bool := (s.loop?.map (·.started)).getD false

/-- How many peers were called since the service was set up. -/
def attempts (s : Service) : Nat := (s.loop?.map (·.attempts)).getD 0

/-- The hooks of the service at a time; it has none before it was set up. -/
def hooks (s : Service) (now : Duration) : List Admin.Hook :=
  match s.loop? with
  | some l => [⟨"getAutoPeering", "Show autopeering state", Admin.constant (l.report now)⟩]
  | none => []

/-- The catalog of a loop: behind a proxy only peers over plain TCP are of use. -/
def catalogFor (s : Service) (proxy : Option Proxy) : List Url :=
  match s.catalog, proxy with
  | some catalog, _ => catalog
  | none, some _ => Catalog.tcpPeers
  | none, none => Catalog.publicPeers

/-- Sets the service up. -/
def init (s : Service) (env : Environment) (settings : PeeringSettings) :
    Except ModuleError Service := do
  let proxy ← match s.proxy with
    | some p => .ok (some p)
    | none => (Proxy.ofEnvironment env).mapError fun e => .settings e.message
  return { s with loops := s.loops ++ [{ catalog := s.catalogFor proxy, proxy, settings }] }

/-- Changes the loop that the service owns. -/
def onLoop (s : Service) (f : Loop → Loop) : Except ModuleError Service :=
  match s.loop? with
  | none => .error (.notInitialized name)
  | some l => .ok { s with loops := s.loops.dropLast ++ [f l] }

/-- Switches the loop on, if its settings let it. -/
def start (s : Service) : Except ModuleError Service := s.onLoop Loop.start

/-- Switches the loop off, if there is one. -/
def stop (s : Service) : Service :=
  match s.onLoop Loop.stop with
  | .ok s => s
  | .error _ => s

/-- Gives the loop new settings. -/
def update (s : Service) (settings : PeeringSettings) : Except ModuleError Service :=
  s.onLoop (Loop.update · settings)

end Service

end MeshNode.Peering
