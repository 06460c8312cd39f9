import MeshNode.Net.Ipv6

/-!
# Mesh addressing

The mesh owns `200::/7`. A node's address lies in `200::/8` and its routed subnet in
`300::/8`, and both follow from the node's public key alone: of the complement of the key,
the number of leading one bits goes into the second octet, and the bits after the first
zero bit fill the rest.
-/

namespace MeshNode

/-! ## The mesh and its subnets -/

/-- The first octet of every node address. -/
def nodeOctet : UInt8 := 0x02

/-- The network of the whole mesh. -/
def meshNetwork : Ipv6 := Octets.padded 16 [nodeOctet]

/-- The length of the mesh's network part. -/
def meshLength : Nat := 7

/-- An address lies in the mesh when its first seven bits are the mesh's. -/
def isMeshAddress (a : Ipv6) : Bool :=
  a.get 0 &&& 0xfe == nodeOctet

/-- An address is link-local when it lies in `fe80::/10`. -/
def isLinkLocal (a : Ipv6) : Bool :=
  a.get 0 == 0xfe && a.get 1 &&& 0xc0 == 0x80

/-- An address is site-local when it lies in `fec0::/10`. -/
def isSiteLocal (a : Ipv6) : Bool := a.get 0 == 0xfe && a.get 1 &&& 0xc0 == 0xc0

/-- An address is a multicast one when it lies in `ff00::/8`. -/
def isMulticast (a : Ipv6) : Bool := a.get 0 == 0xff

/-- A node's routed network of 64 bits. -/
structure Subnet where
  octets : Octets 8
deriving DecidableEq

namespace Subnet

/-- The length of the network part. -/
def length : Nat := 64

/-- The network address: the host part is zero. -/
def network (s : Subnet) : Ipv6 := Octets.padded 16 s.octets.toList

/-- The gateway address: the host part is one. -/
def gateway (s : Subnet) : Ipv6 := s.network.set 15 1

/-- Whether an address lies in the subnet. -/
def contains (s : Subnet) (a : Ipv6) : Bool := a.toList.take 8 == s.octets.toList

/-- The network address and its length. -/
def render (s : Subnet) : String := s.network.render ++ "/" ++ toString length

end Subnet

/-! ## Addresses of a key -/

/-- What has been gathered from the bits of a complemented key, read one after the other. -/
structure BitScan where
  /-- The ones before the first zero, modulo 256. -/
  ones : UInt8 := 0
  /-- Whether the first zero has been read. -/
  pastZero : Bool := false
  /-- The bits after the first zero that do not fill an octet yet, the latest one lowest. -/
  register : UInt8 := 0
  /-- How many bits the register holds. -/
  held : Nat := 0
  /-- The octets that the bits after the first zero have filled. -/
  tail : List UInt8 := []
deriving DecidableEq

namespace BitScan

/-- One more bit. It is counted, or ends the count, or goes into the register, which gives
its octet away when it is full. -/
def read (s : BitScan) (bit : Bool) : BitScan :=
  if s.pastZero then
    let register := s.register <<< 1 ||| bit.toUInt8
    if s.held + 1 = 8 then { s with register := 0, held := 0, tail := s.tail ++ [register] }
    else { s with register, held := s.held + 1 }
  else if bit then { s with ones := s.ones + 1 }
  else { s with pastZero := true }

/-- What is gathered from a row of bits. -/
def ofBits (bits : List Bool) : BitScan := bits.foldl read {}

end BitScan

/-- The node address of a key: the count of leading ones, modulo 256, and at most fourteen of
the octets gathered behind it. Bits that do not fill an octet are left out. There is none if
the octets ran past the end of the address. -/
def nodeAddress? (key : NodeKey) : Option Ipv6 :=
  let s := BitScan.ofBits key.complement.bits
  (((Octets.zero 16).set 0 nodeOctet).set 1 s.ones).copyAt? 2 (s.tail.take 14)

/-- Fourteen octets are all that fits behind the first two. -/
theorem isSome_nodeAddress? (key : NodeKey) : (nodeAddress? key).isSome := by
  apply Octets.isSome_copyAt?
  have htake := List.length_take_le 14 (BitScan.ofBits key.complement.bits).tail
  omega

/-- The node address of a key. -/
def nodeAddress (key : NodeKey) : Ipv6 := (nodeAddress? key).get (isSome_nodeAddress? key)

/-- The routed subnet of a key: the network part of its address, moved to `300::/8`. -/
def nodeSubnet (key : NodeKey) : Subnet :=
  let network : Octets 8 := Octets.padded 8 (nodeAddress key).toList
  ⟨network.set 0 (network.get 0 ||| 0x01)⟩

end MeshNode
