import MeshNode.Admin.Registry
import MeshNode.Advertiser.Compose
import MeshNode.Advertiser.Gateway
import MeshNode.Advertiser.Pipeline
import MeshNode.Module

/-!
# The advertising service

The service announces the subnet of the node on one link. Starting looks the link up,
composes the advertisement, opens a socket, adds the gateway address if it shall, and runs a
pipeline; stopping undoes that. New settings take effect by stopping and starting again. All
that the service needs of the machine is a `Machine`, whose calls may end in any way.
-/

namespace MeshNode.Advertiser

/-- Why a socket cannot be opened: the call that failed and the reason. -/
structure SocketFault where
  call : String
  reason : String
deriving DecidableEq

/-- The text of a fault. -/
def SocketFault.message (e : SocketFault) : String := s!"{e.call}: {e.reason}"

/-- What the service asks of a machine whose state is in `σ`. -/
structure Machine (σ : Type) where
  forwarding : σ → String → Forwarding
  lookup : σ → String → Except LinkFault LinkInfo
  openSocket : σ → LinkInfo → Except SocketFault Unit
  addAddress : Gateway.AddressCall σ
  removeAddress : Gateway.AddressCall σ

/-- What the service reports about itself, its counts apart. -/
structure Status where
  started : Bool := false
  interface : String := ""
  subnet : Option Subnet := none
  gateway : Option Ipv6 := none
  forwarding : Option Forwarding := none
deriving DecidableEq

/-- A pipeline that was spawned on the socket of a link. One that was aborted takes no further
step. -/
structure Spawned where
  link : LinkInfo
  pipeline : Pipeline
  aborted : Bool
deriving DecidableEq

/-- What the service keeps while it runs: the place of its pipeline, and its gateway address. -/
structure Running where
  place : Nat
  gateway : Option Gateway
deriving DecidableEq

/-- The service. -/
structure Service where
  /-- The key of the node, once the service was given it. -/
  key : Option NodeKey := none
  settings : AdvertiserSettings := {}
  status : Status := {}
  /-- The counts that all pipelines share. -/
  stats : Stats := {}
  /-- All pipelines so far. -/
  spawned : List Spawned := []
  running : Option Running := none
deriving DecidableEq

namespace Service

/-- The name of the service. -/
def name : String := "radv"

/-- Whether the service runs. -/
def isStarted (s : Service) : Bool := s.running.isSome

/-- The pipeline of the service while it runs. -/
def current? (s : Service) : Option Spawned := s.running.bind fun r => s.spawned[r.place]?

/-- The state of the service as reported to the administrator. -/
def report (s : Service) : Json :=
  let text : Option String → Json := fun t => (t.map Json.str).getD .null
  Json.ofMembers [
    ("started", .bool s.status.started),
    ("interface", .str s.status.interface),
    ("subnet", text (s.status.subnet.map (·.render))),
    ("gateway", text (s.status.gateway.map Ipv6.render)),
    ("forwarding", text (s.status.forwarding.map (·.text))),
    ("solicitations", Json.ofNat s.stats.solicitations),
    ("advertisements", Json.ofNat s.stats.advertisements),
    ("send_errors", Json.ofNat s.stats.sendErrors),
    ("receive_errors", Json.ofNat s.stats.recvErrors)]

/-- The hooks of the service. -/
def hooks (s : Service) : List Admin.Hook :=
  [⟨"getRAdv", "Show router advertisement state", Admin.constant s.report⟩]

/-- Gives the service the key of the node and its settings; what runs goes on. -/
def init (s : Service) (key : NodeKey) (settings : AdvertiserSettings) : Service :=
  { s with key := some key, settings }

variable {σ : Type} (m : Machine σ)

/-- Opens all that a pipeline needs: the link, the advertisement and the socket. -/
def prepare (w : σ) (settings : AdvertiserSettings) (subnet : Subnet) :
    Except ModuleError (LinkInfo × List UInt8) := do
  let link ← (m.lookup w settings.interface).mapError fun e =>
    .interface settings.interface e.message
  let packet ← (compose settings subnet link.hardware link.linkLocal).encode.mapError fun e =>
    .settings s!"cannot encode advertisement: {e.message}"
  (m.openSocket w link).mapError fun e => .interface settings.interface e.message
  return (link, packet)

/-- Adds the gateway address of a subnet to a link; without one if that fails. -/
def installGateway (w : σ) (link : LinkInfo) (subnet : Subnet) : σ × Option Gateway :=
  let gateway := Gateway.new link.name link.index ⟨subnet.gateway, Subnet.length⟩
  match gateway.add m.addAddress w with
  | (w, gateway, .ok ()) => (w, some gateway)
  | (w, _, .error _) => (w, none)

/-- Spawns a pipeline on what was prepared. -/
def run (w : σ) (s : Service) (subnet : Subnet) (link : LinkInfo) (packet : List UInt8) :
    σ × Service :=
  let (w, gateway) :=
    if s.settings.setGatewayIp then installGateway m w link subnet else (w, none)
  (w, { s with
    status :=
      { started := true
        interface := link.name
        subnet := some subnet
        gateway := gateway.map (·.address.address)
        forwarding := s.status.forwarding }
    spawned := s.spawned ++ [⟨link, .start packet s.stats, false⟩]
    running := some ⟨s.spawned.length, gateway⟩ })

/-- Starts the service, unless it runs or shall not. -/
def start (w : σ) (s : Service) : σ × Service × Except ModuleError Unit :=
  match s.key with
  | none => (w, s, .error (.notInitialized name))
  | some key =>
    if s.isStarted || !s.settings.enable then (w, s, .ok ())
    else if s.settings.maxInterval < s.settings.minInterval then
      (w, s, .error (.settings "radv.min_interval_secs exceeds radv.max_interval_secs"))
    else
      let forwarding := m.forwarding w s.settings.interface
      let s := { s with status := { s.status with forwarding := some forwarding } }
      let subnet := nodeSubnet key
      match prepare m w s.settings subnet with
      | .error e => (w, s, .error e)
      | .ok (link, packet) =>
        let (w, s) := run m w s subnet link packet
        (w, s, .ok ())

/-- Takes the gateway address away if the service has added it. -/
def releaseGateway (w : σ) (gateway : Option Gateway) : σ :=
  match gateway with
  | none => w
  | some g => (g.remove m.removeAddress w).1

/-- Stops the service: its pipeline is aborted. -/
def stop (w : σ) (s : Service) : σ × Service :=
  match s.running with
  | none => (w, s)
  | some r =>
    (releaseGateway m w r.gateway,
      { s with
        spawned := s.spawned.modify r.place fun p => { p with aborted := true }
        status := { s.status with started := false, gateway := none }
        running := none })

/-- The machine without the service, which is stopped before it goes. -/
def drop (w : σ) (s : Service) : σ := (s.stop m w).1

/-- Stops, takes new settings, and starts. -/
def update (w : σ) (s : Service) (settings : AdvertiserSettings) :
    σ × Service × Except ModuleError Unit :=
  let (w, s) := s.stop m w
  start m w { s with settings }

/-- A pipeline goes on, unless it was aborted, and counts together with all others. -/
def onPipeline (s : Service) (k : Nat) (f : Pipeline → Pipeline) : Service :=
  match s.spawned[k]? with
  | some ⟨link, p, false⟩ =>
    let p := f { p with stats := s.stats }
    { s with
      stats := p.stats
      spawned := s.spawned.set k ⟨link, p, false⟩ }
  | _ => s

/-- The pipeline of the service goes on. -/
def onCurrent (s : Service) (f : Pipeline → Pipeline) : Service :=
  match s.running with
  | some r => s.onPipeline r.place f
  | none => s

/-- The pipeline receives a datagram; `success` tells how sends end. -/
def receive (s : Service) (success : Bool) (d : Datagram) : Service :=
  s.onCurrent (·.receive success d)

/-- The pipeline goes on as far as it can. -/
def quiesce (s : Service) (success : Bool) : Service := s.onCurrent (·.quiesce success)

end Service

end MeshNode.Advertiser
