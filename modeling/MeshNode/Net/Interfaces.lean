import MeshNode.Addressing
import MeshNode.Text.Utf8

/-!
# Interfaces

The links of a machine with their addresses, and the calls that look a link up, add an
address to it and take one away, with the ways in which each can fail.
-/

namespace MeshNode

/-- Why a call on the addresses of an interface fails. -/
inductive AddressFault
  | indexOutOfRange
  | invalidArgument
  | noSuchDevice
  | alreadyPresent
  | notAvailable
  | other (text : String)
deriving DecidableEq

/-- The text of a fault. -/
def AddressFault.message : AddressFault → String
  | .indexOutOfRange => "interface index out of range"
  | .invalidArgument => "Invalid argument (os error 22)"
  | .noSuchDevice => "No such device (os error 19)"
  | .alreadyPresent => "File exists (os error 17)"
  | .notAvailable => "Cannot assign requested address (os error 99)"
  | .other text => text

/-- Why an interface cannot be used. -/
inductive LinkFault
  | nulInName (position : Nat)
  | notFound (name : String)
  | noHardwareAddress (name : String)
  | noLinkLocal (name : String)
deriving DecidableEq

/-- The text of a fault. -/
def LinkFault.message : LinkFault → String
  | .nulInName position =>
    s!"interface name contains null byte: nul byte found in provided data at position: {position}"
  | .notFound name => s!"interface '{name}' not found"
  | .noHardwareAddress name => s!"interface '{name}' has no hardware address"
  | .noLinkLocal name => s!"interface '{name}' has no link-local address"

/-- What is known of an interface that can be used. -/
structure LinkInfo where
  name : String
  index : Nat
  hardware : Octets 6
  linkLocal : Ipv6
deriving DecidableEq

/-- Whether an interface passes packets on, as far as can be told. -/
inductive Forwarding
  | enabled
  | disabled
  | unknown
deriving DecidableEq

/-- Why the state of forwarding cannot be told. -/
inductive ForwardingFault
  | nulInName
  | notFound
deriving DecidableEq

/-- The text of a state of forwarding. -/
def Forwarding.text : Forwarding → String
  | .enabled => "enabled"
  | .disabled => "disabled"
  | .unknown => "unknown"

/-- An address and the length of its network. -/
structure InterfaceAddress where
  address : Ipv6
  length : Nat
deriving DecidableEq

/-- The address and length that a text such as `fe80::1/64` spells. -/
def InterfaceAddress.parse? (text : String) : Option InterfaceAddress := do
  match Text.splitAt '/' text.toList with
  | [address, length] =>
    return ⟨← Ipv6.parse? address, ← (Text.parseCount (String.ofList length)).toOption⟩
  | _ => none

/-- One link of the machine. Its addresses stand with the latest first. -/
structure Interface where
  name : String
  index : Nat
  hardware : Option (Octets 6)
  isUp : Bool
  forwards : Bool
  addresses : List InterfaceAddress
deriving DecidableEq

namespace Interface

/-- Whether a link has an address, whatever its length. -/
def hasAddress (l : Interface) (a : Ipv6) : Bool := l.addresses.any (·.address == a)

/-- The latest link-local address. -/
def linkLocal? (l : Interface) : Option Ipv6 := (l.addresses.map (·.address)).find? isLinkLocal

end Interface

/-- The address of all zeros, which no interface can have. -/
def unspecifiedAddress : Ipv6 := Octets.zero 16

/-- The address of the machine itself. -/
def loopbackAddress : Ipv6 := Octets.padded 16 (List.replicate 15 0 ++ [1])

/-- Whether an address has a meaning beyond its link, its site and its machine. -/
def isGlobal (a : Ipv6) : Bool := !isLinkLocal a && !isSiteLocal a && a != loopbackAddress

/-- The links of a machine. -/
structure Interfaces where
  links : List Interface
deriving DecidableEq

namespace Interfaces

/-- The name of the link that leads nowhere. -/
def loopbackName : String := "lo"

/-- The link that leads nowhere. -/
def loopback : Interface :=
  ⟨loopbackName, 1, some (Octets.zero 6), true, false, [⟨loopbackAddress, 128⟩]⟩

/-- A machine without any other link. -/
def empty : Interfaces := ⟨[loopback]⟩

/-- The link of a name. -/
def byName? (i : Interfaces) (name : String) : Option Interface := i.links.find? (·.name == name)

/-- The link of an index. -/
def byIndex? (i : Interfaces) (index : Nat) : Option Interface := i.links.find? (·.index == index)

/-- The index that a new link gets. -/
def nextIndex (i : Interfaces) : Nat := (i.links.map (·.index)).foldl max 0 + 1

/-- Takes a link away with its addresses. -/
def removeLink (i : Interfaces) (name : String) : Interfaces :=
  ⟨i.links.filter (·.name != name)⟩

/-- Changes the link of an index. -/
def modify (i : Interfaces) (index : Nat) (f : Interface → Interface) : Interfaces :=
  ⟨i.links.map fun l => if l.index = index then f l else l⟩

/-- The least index that a call cannot express. -/
def indexLimit : Nat := 0x80000000

/-- The greatest length of a network. -/
def maxLength : Nat := 128

/-- Whether a link can have an address. -/
def assignable (l : Interface) (a : Ipv6) : Bool :=
  a != unspecifiedAddress && !isMulticast a && (a != loopbackAddress || l.name == loopbackName)

/-- The link that a call on its addresses is about. -/
def target (i : Interfaces) (index : Nat) (a : InterfaceAddress) : Except AddressFault Interface :=
  if indexLimit ≤ index then .error .indexOutOfRange
  else if maxLength < a.length then .error .invalidArgument
  else
    match i.byIndex? index with
    | none => .error .noSuchDevice
    | some l => .ok l

/-- Adds an address. An address is there once, whatever its length. -/
def addAddress (i : Interfaces) (index : Nat) (a : InterfaceAddress) :
    Interfaces × Except AddressFault Unit :=
  match i.target index a with
  | .error e => (i, .error e)
  | .ok l =>
    if !assignable l a.address then (i, .error .notAvailable)
    else if l.hasAddress a.address then (i, .error .alreadyPresent)
    else (i.modify index fun l => { l with addresses := a :: l.addresses }, .ok ())

/-- Takes an address away, if it is there with that length. -/
def removeAddress (i : Interfaces) (index : Nat) (a : InterfaceAddress) :
    Interfaces × Except AddressFault Unit :=
  match i.target index a with
  | .error e => (i, .error e)
  | .ok l =>
    if a ∈ l.addresses then
      (i.modify index fun l => { l with addresses := l.addresses.filter (· != a) }, .ok ())
    else (i, .error .notAvailable)

/-- A new link with some addresses, the first of which are added first. -/
def addLink (i : Interfaces) (name : String) (hardware : Octets 6) (isUp forwards : Bool)
    (addresses : List InterfaceAddress) : Interfaces :=
  let index := i.nextIndex
  let bare : Interface := ⟨name, index, some hardware, isUp, forwards, []⟩
  addresses.foldl (fun i a => (i.addAddress index a).1) ⟨i.links ++ [bare]⟩

/-- The links after a call on the link of a name, and whether it did what it should. -/
def callByName (i : Interfaces) (name : String)
    (call : Nat → Interfaces × Except AddressFault Unit) : Interfaces × Bool :=
  match i.byName? name with
  | none => (i, false)
  | some l =>
    let (i, result) := call l.index
    (i, result.isOk)

/-- The place of the first zero octet in a name. -/
def nulPosition? (name : String) : Option Nat :=
  let octets := Text.utf8 name
  if 0 ∈ octets then some (octets.takeWhile (· != 0)).length else none

/-- What is known of the link of a name. -/
def lookup (i : Interfaces) (name : String) : Except LinkFault LinkInfo :=
  match nulPosition? name with
  | some position => .error (.nulInName position)
  | none =>
    match i.byName? name with
    | none => .error (.notFound name)
    | some l =>
      match l.hardware, l.linkLocal? with
      | none, _ => .error (.noHardwareAddress name)
      | some _, none => .error (.noLinkLocal name)
      | some hardware, some linkLocal => .ok ⟨name, l.index, hardware, linkLocal⟩

/-- The names under which the state of forwarding is kept beside those of the links: what
holds for all links, and what a new link gets. -/
def commonNames : List String := ["all", "default"]

/-- Whether the link of a name passes packets on, if there is such a state under the name. -/
def forwards? (i : Interfaces) (name : String) : Except ForwardingFault Bool :=
  if (nulPosition? name).isSome then .error .nulInName
  else
    match i.byName? name with
    | some l => .ok l.forwards
    | none => if name ∈ commonNames then .ok false else .error .notFound

/-- Whether the link of a name passes packets on. -/
def forwarding (i : Interfaces) (name : String) : Forwarding :=
  match i.forwards? name with
  | .ok true => .enabled
  | .ok false => .disabled
  | .error _ => .unknown

/-- The global addresses of the link of a name. -/
def globalAddresses (i : Interfaces) (name : String) : List Ipv6 :=
  match i.byName? name with
  | some l => (l.addresses.map (·.address)).filter isGlobal
  | none => []

end Interfaces

end MeshNode
