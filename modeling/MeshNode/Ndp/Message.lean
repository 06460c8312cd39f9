import MeshNode.Duration
import MeshNode.Octets

/-!
# Neighbour discovery messages

The messages a router sends and receives: Router Solicitations, Router Advertisements and
their options, and what can be wrong with the octets of one.
-/

namespace MeshNode.Ndp

/-! ## Numbers of the wire format -/

/-- The ICMPv6 type of a Router Solicitation. -/
def typeSolicitation : UInt8 := 133
/-- The ICMPv6 type of a Router Advertisement. -/
def typeAdvertisement : UInt8 := 134

/-- The option that holds the sender's link-layer address. -/
def kindSource : UInt8 := 1
/-- The option that holds the target's link-layer address. -/
def kindTarget : UInt8 := 2
/-- The option that describes a network on the link. -/
def kindNetwork : UInt8 := 3
/-- The option that describes a route through the sender. -/
def kindRoute : UInt8 := 24
/-- The option that lists name servers. -/
def kindDns : UInt8 := 25

/-! ## Messages -/

/-- How a router or route ranks among others. -/
inductive Preference
  | high
  | medium
  | low
deriving DecidableEq

/-- An option of a message. -/
inductive MessageOption
  /-- A network on the link, and for how long hosts may use it. -/
  | network (address : Ipv6) (length : UInt8) (onLink autonomous : Bool)
      (valid preferred : Duration)
  /-- A route through the sender. -/
  | route (address : Ipv6) (length : UInt8) (preference : Preference) (lifetime : Duration)
  /-- The link-layer address of the sender, or else of the target. -/
  | linkLayer (source : Bool) (address : HwAddr)
  /-- Recursive name servers. -/
  | dnsServers (lifetime : Duration) (servers : List Ipv6)
  /-- An option of any other kind, as it stands on the wire after kind and length. -/
  | unknown (kind : UInt8) (body : List UInt8)
deriving DecidableEq

/-- A Router Advertisement. -/
structure RouterAdvertisement where
  hopLimit : UInt8
  managed : Bool
  other : Bool
  preference : Preference
  routerLifetime : Duration
  reachableTime : Duration
  retransmitTimer : Duration
  options : List MessageOption
deriving DecidableEq

/-- A received message. -/
inductive Message
  | solicitation (options : List MessageOption)
  | advertisement (ra : RouterAdvertisement)
  | other (icmpType : UInt8)
deriving DecidableEq

/-! ## Errors -/

/-- What is wrong with a message, read or about to be written. -/
inductive WireError
  | truncated (length : Nat)
  | zeroLengthOption (kind : UInt8)
  | optionOverrun (kind : UInt8)
  | badOptionLength (kind : UInt8) (length : UInt8)
  | badCode (icmpType : UInt8) (code : UInt8)
  | badPrefixLength (length : UInt8)
deriving DecidableEq

/-- The wording of a wire error. -/
def WireError.message : WireError → String
  | .truncated n => s!"message truncated: {n} bytes"
  | .zeroLengthOption kind => s!"option of type {kind.toNat} has zero length"
  | .optionOverrun kind => s!"option of type {kind.toNat} overruns the message"
  | .badOptionLength kind length =>
    s!"option of type {kind.toNat} has invalid length {length.toNat}"
  | .badCode icmpType code => s!"non-zero code {code.toNat} for ICMPv6 type {icmpType.toNat}"
  | .badPrefixLength length => s!"prefix length {length.toNat} out of range"

/-! ## Route options -/

/-- How many octets of its network a route of the given length needs on the wire. -/
def routeOctets? (length : UInt8) : Option Nat :=
  if length = 0 then some 0
  else if length ≤ 64 then some 8
  else if length ≤ 128 then some 16
  else none

end MeshNode.Ndp
