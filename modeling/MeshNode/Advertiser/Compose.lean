import MeshNode.Addressing
import MeshNode.Ndp.Encode
import MeshNode.Settings.Basic

/-!
# Composing advertisements

The Router Advertisement of a node: the prefix of its subnet, a route to the mesh unless it
is the default router, the link-layer address, and a name server if it offers one.
-/

namespace MeshNode.Advertiser

open MeshNode.Ndp

/-- The hop limit that hosts are told to use. -/
def hopLimit : UInt8 := 64

/-- How long addresses of the subnet are valid. -/
def validLifetime : Duration := .ofSecs 86400

/-- How long addresses of the subnet are preferred. -/
def preferredLifetime : Duration := .ofSecs 14400

/-- How long the node serves as a router, for all addresses or for the mesh. -/
def routeLifetime : Duration := .ofSecs 1800

/-- The lifetime of what never expires. -/
def infiniteLifetime : Duration := .ofSecs 0xffffffff

/-- The route to the mesh. -/
def meshRoute : MessageOption :=
  .route meshNetwork (UInt8.ofNat meshLength) .medium routeLifetime

/-- The advertisement of a subnet on a link with the given addresses. -/
def compose (settings : AdvertiserSettings) (subnet : Subnet) (hwAddr : HwAddr)
    (linkAddr : Ipv6) : RouterAdvertisement :=
  { hopLimit := hopLimit
    managed := false
    other := false
    preference := .medium
    routerLifetime := if settings.advertiseDefaultRouter then routeLifetime else .zero
    reachableTime := .zero
    retransmitTimer := .zero
    options :=
      [.network subnet.network (UInt8.ofNat Subnet.length) true true validLifetime
        preferredLifetime] ++
      (if settings.advertiseDefaultRouter then [] else [meshRoute]) ++
      [.linkLayer true hwAddr] ++
      (if settings.advertiseDns then [.dnsServers infiniteLifetime [linkAddr]] else []) }

end MeshNode.Advertiser
