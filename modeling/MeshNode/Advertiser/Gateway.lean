import MeshNode.Net.Interfaces

/-!
# The gateway address

While it advertises, a node can have the first address of its subnet on the link, so that
hosts find a next hop there. Adding and taking away may be repeated, and the node takes
away only what it has added itself: an address found there belongs to whoever put it there.
-/

namespace MeshNode.Advertiser

/-- Why the gateway address could not be changed, and which it was. -/
inductive GatewayError
  | add (interface : String) (address : InterfaceAddress) (cause : AddressFault)
  | remove (interface : String) (address : InterfaceAddress) (cause : AddressFault)
deriving DecidableEq

/-- The text of an error. -/
def GatewayError.message : GatewayError → String
  | .add interface a cause =>
    s!"failed to add {a.address.render}/{a.length} to {interface}: {cause.message}"
  | .remove interface a cause =>
    s!"failed to remove {a.address.render}/{a.length} from {interface}: {cause.message}"

/-- A gateway address on an interface. -/
structure Gateway where
  interface : String
  index : Nat
  address : InterfaceAddress
  /-- Whether the node has added the address and has not taken it away since. -/
  installed : Bool
deriving DecidableEq

namespace Gateway

/-- A gateway address that was not added yet. -/
def new (interface : String) (index : Nat) (address : InterfaceAddress) : Gateway :=
  ⟨interface, index, address, false⟩

/-- A call on the addresses of an interface: the index, the address, and what comes of it. -/
abbrev AddressCall (σ : Type) := σ → Nat → InterfaceAddress → σ × Except AddressFault Unit

/-- Takes the result of adding the address. One that is there already will do. -/
def added (g : Gateway) : Except AddressFault Unit → Gateway × Except GatewayError Unit
  | .ok () => ({ g with installed := true }, .ok ())
  | .error .alreadyPresent => (g, .ok ())
  | .error e => (g, .error (.add g.interface g.address e))

/-- Takes the result of taking the address away. One that is gone already will do. -/
def removed (g : Gateway) : Except AddressFault Unit → Gateway × Except GatewayError Unit
  | .ok () | .error .notAvailable | .error .noSuchDevice => ({ g with installed := false }, .ok ())
  | .error e => ({ g with installed := false }, .error (.remove g.interface g.address e))

variable {σ : Type}

/-- Adds the address, unless that was done. -/
def add (call : AddressCall σ) (s : σ) (g : Gateway) : σ × Gateway × Except GatewayError Unit :=
  if g.installed then (s, g, .ok ())
  else
    let (s, result) := call s g.index g.address
    (s, g.added result)

/-- Takes the address away if it was added. -/
def remove (call : AddressCall σ) (s : σ) (g : Gateway) :
    σ × Gateway × Except GatewayError Unit :=
  if g.installed then
    let (s, result) := call s g.index g.address
    (s, g.removed result)
  else (s, g, .ok ())

end Gateway

end MeshNode.Advertiser
