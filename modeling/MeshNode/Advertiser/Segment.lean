import MeshNode.Advertiser.Service

/-!
# The service on its links

The advertising service together with the interfaces of its machine: which packets on a
link reach it, and which advertisements come out on which link.
-/

namespace MeshNode.Advertiser

/-- The service uses the interfaces of the machine. -/
def Machine.ofInterfaces : Machine Interfaces where
  forwarding := Interfaces.forwarding
  lookup := Interfaces.lookup
  openSocket _ _ := .ok ()
  addAddress := Interfaces.addAddress
  removeAddress := Interfaces.removeAddress

/-- The group of all nodes of a link. -/
def allNodes : Ipv6 := Octets.padded 16 ([0xff, 0x02] ++ List.replicate 13 0 ++ [1])

/-- The group of all routers of a link. -/
def allRouters : Ipv6 := Octets.padded 16 ([0xff, 0x02] ++ List.replicate 13 0 ++ [2])

/-- The group in which the holder of an address is solicited. -/
def solicitedNode (a : Ipv6) : Ipv6 :=
  Octets.padded 16
    ([0xff, 0x02] ++ List.replicate 9 0 ++ [1, 0xff] ++ a.toList.drop 13)

/-- An advertisement on a link. -/
structure Sent where
  link : String
  source : Ipv6
  hopLimit : Nat
  octets : List UInt8
deriving DecidableEq

/-- The service and the interfaces it uses. -/
structure Segment where
  interfaces : Interfaces
  service : Service
deriving DecidableEq

namespace Segment

/-- Whether packets can leave on a link. -/
def canSend (g : Segment) (link : String) : Bool :=
  match g.interfaces.byName? link with
  | some l => l.isUp
  | none => false

/-- Whether what the service sends goes out. -/
def sendSuccess (g : Segment) : Bool :=
  match g.service.current? with
  | some p => g.canSend p.link.name
  | none => false

/-- The advertisements that went out when the service has come so far. -/
def sentSince (before : Service) (after : Service) : List Sent :=
  match after.current? with
  | none => []
  | some p =>
    List.replicate (after.stats.advertisements - before.stats.advertisements)
      ⟨p.link.name, p.link.linkLocal, Listener.onLinkHopLimit, p.pipeline.packet⟩

/-- Goes on as far as possible, and tells what went out. -/
def quiesce (g : Segment) : Segment × List Sent :=
  let service := g.service.quiesce g.sendSuccess
  ({ g with service }, sentSince g.service service)

/-- Gives the service the key of the node and its settings. -/
def init (g : Segment) (key : NodeKey) (settings : AdvertiserSettings) : Segment :=
  { g with service := g.service.init key settings }

/-- Starts the service. -/
def start (g : Segment) : Segment × Except ModuleError Unit × List Sent :=
  let (interfaces, service, result) := g.service.start Machine.ofInterfaces g.interfaces
  let (g, sent) := quiesce ⟨interfaces, service⟩
  (g, result, sent)

/-- Stops the service. -/
def stop (g : Segment) : Segment :=
  let (interfaces, service) := g.service.stop Machine.ofInterfaces g.interfaces
  ⟨interfaces, service⟩

/-- Gives the service new settings. -/
def update (g : Segment) (settings : AdvertiserSettings) :
    Segment × Except ModuleError Unit × List Sent :=
  let (interfaces, service, result) := g.service.update Machine.ofInterfaces g.interfaces settings
  let (g, sent) := quiesce ⟨interfaces, service⟩
  (g, result, sent)

/-- Whether a packet to a destination on a link reaches the service: the link is its own,
and the destination is the address it is bound to or a group that the machine is in. -/
def reaches (g : Segment) (link : String) (destination : Ipv6) : Bool :=
  match g.service.current?, g.interfaces.byName? link with
  | some p, some l =>
    l.isUp && p.link.name == link &&
      (destination ∈ [allNodes, allRouters] ||
        (destination == p.link.linkLocal && l.hasAddress destination) ||
        l.addresses.any fun a => solicitedNode a.address == destination)
  | _, _ => false

/-- A host on a link sends a packet. -/
def arrive (g : Segment) (link : String) (destination : Ipv6) (d : Datagram) :
    Segment × List Sent :=
  if g.reaches link destination then
    let service := g.service.receive g.sendSuccess d
    ({ g with service }, sentSince g.service service)
  else (g, [])

end Segment

end MeshNode.Advertiser
