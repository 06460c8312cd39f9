import Mathlib.Data.List.Forall2
import MeshNode.Ndp.Decode

/-!
# The grammar of neighbour discovery messages

What the octets of a message say, stated on their layout and without the
reader:

* **blocks** — a `Block` is one option on the wire: a kind, a length in units
  of eight octets that is not zero, and exactly the octets that length counts;
* **meaning** — `Block.Spells b o`: the block is laid out as the option `o`;
  `Block.Fits` is what a kind asks of a block, in numbers only;
* **defects** — `Block.Defect b e`: the block is refused, and `e` says why.
  The alternatives of one kind exclude each other, which fixes the error that
  wins when a block is wrong in two ways;
* **rows and messages** — a row of options is a chain of blocks, and its first
  defect comes after blocks without one (`RowDefect`). `Spells` and
  `MessageDefect` put the fixed headers in front.
-/

namespace MeshNode.Ndp

/-! ## Blocks -/

/-- One option as it stands on the wire. -/
structure Block where
  kind : UInt8
  /-- The length of the whole block, in units of eight octets. -/
  units : UInt8
  /-- The octets after kind and length. -/
  body : List UInt8
  units_ne_zero : units ≠ 0
  length_body : body.length + 2 = 8 * units.toNat

namespace Block

/-- The octets of a block. -/
def toList (b : Block) : List UInt8 := b.kind :: b.units :: b.body

theorem length_toList (b : Block) : b.toList.length = 8 * b.units.toNat := by
  rw [← b.length_body]
  rfl

/-- The octet that holds a network's length, in the kinds that have one. -/
def networkLength (b : Block) : UInt8 := b.body.headD 0

end Block

/-! ## What an octet means -/

/-- The option kinds that have a layout of their own. -/
def knownKinds : List UInt8 := [kindSource, kindTarget, kindNetwork, kindRoute, kindDns]

theorem not_mem_knownKinds {kind : UInt8} :
    kind ∉ knownKinds ↔ ¬ (kind = kindSource ∨ kind = kindTarget) ∧ kind ≠ kindNetwork ∧
      kind ≠ kindRoute ∧ kind ≠ kindDns := by
  simp only [knownKinds, List.mem_cons, List.not_mem_nil, or_false, not_or, and_assoc]

/-- Both link-layer kinds have one layout. -/
theorem isLinkLayer_of_eq_ite {kind : UInt8} {source : Bool}
    (h : kind = if source then kindSource else kindTarget) :
    kind = kindSource ∨ kind = kindTarget := by
  cases source
  · exact .inr h
  · exact .inl h

/-- The units that a route option takes at least. -/
def routeUnits (length : UInt8) : Nat :=
  if length = 0 then 1 else if length ≤ 64 then 2 else 3

/-- How many octets of its network a route keeps on the wire: 0, 8 or 16. -/
def keptOctets (length : UInt8) : Nat := 8 * (routeUnits length - 1)

theorem routeUnits_pos (length : UInt8) : 0 < routeUnits length := by
  unfold routeUnits
  split
  · omega
  · split <;> omega

theorem routeUnits_le (length : UInt8) : routeUnits length ≤ 3 := by
  unfold routeUnits
  split
  · omega
  · split <;> omega

theorem keptOctets_le (length : UInt8) : keptOctets length ≤ 16 := by
  have h := routeUnits_le length
  rw [keptOctets]
  omega

theorem routeOctets?_of_le {length : UInt8} (h : length ≤ 128) :
    routeOctets? length = some (keptOctets length) := by
  unfold routeOctets? keptOctets routeUnits
  by_cases hzero : length = 0
  · rw [if_pos hzero, if_pos hzero]
  · rw [if_neg hzero, if_neg hzero]
    by_cases hhalf : length ≤ 64
    · rw [if_pos hhalf, if_pos hhalf]
    · rw [if_neg hhalf, if_neg hhalf, if_pos h]

theorem routeOctets?_of_gt {length : UInt8} (h : 128 < length) : routeOctets? length = none := by
  have hzero : length ≠ 0 := by
    rintro rfl
    exact absurd h (by decide)
  have hhalf : ¬ length ≤ 64 := by
    intro hle
    exact absurd (UInt8.lt_of_lt_of_le h hle) (by decide)
  rw [routeOctets?, if_neg hzero, if_neg hhalf, if_neg (UInt8.not_le.mpr h)]

/-- The preference of two bits, the more significant first. -/
def preferenceOf : Bool → Bool → Preference
  | false, true => .high
  | true, true => .low
  | _, false => .medium

/-- The preference in bits 4 and 3 of a flags octet. -/
def preferenceIn (flags : UInt8) : Preference :=
  preferenceOf (flags.toNat.testBit 4) (flags.toNat.testBit 3)

/-- A field that counts seconds. -/
def seconds {n : Nat} (o : Octets n) : Duration := .ofSecs (beValue o.toList)

/-- A field that counts milliseconds. -/
def milliseconds {n : Nat} (o : Octets n) : Duration := .ofMillis (beValue o.toList)

namespace Block

/-! ## Blocks in their kinds -/

/-- What its kind asks of a block. -/
structure Fits (b : Block) : Prop where
  linkLayer : b.kind = kindSource ∨ b.kind = kindTarget → b.units = 1
  network : b.kind = kindNetwork → b.units = 4 ∧ b.networkLength ≤ 128
  route : b.kind = kindRoute →
    b.units ≤ 3 ∧ b.networkLength ≤ 128 ∧ routeUnits b.networkLength ≤ b.units.toNat
  dns : b.kind = kindDns → b.units.toNat % 2 = 1 ∧ 3 ≤ b.units.toNat

/-- `b.Spells o`: the block is laid out as the option `o`. Reserved octets may
hold anything; a route's network may be longer on the wire than it needs. -/
inductive Spells : Block → MessageOption → Prop
  | linkLayer {b : Block} {source : Bool} {address : HwAddr} :
      b.kind = (if source then kindSource else kindTarget) →
      b.body = address.toList →
      Spells b (.linkLayer source address)
  | network {b : Block} {length flags : UInt8} {valid preferred reserved : Octets 4}
      {address : Ipv6} :
      b.kind = kindNetwork → length ≤ 128 →
      b.body = [length, flags] ++ valid.toList ++ preferred.toList ++ reserved.toList ++
        address.toList →
      Spells b (.network address length (flags.toNat.testBit 7) (flags.toNat.testBit 6)
        (seconds valid) (seconds preferred))
  | route {b : Block} {length flags : UInt8} {lifetime : Octets 4} {front : List UInt8} :
      b.kind = kindRoute → b.units ≤ 3 → length ≤ 128 → routeUnits length ≤ b.units.toNat →
      b.body = [length, flags] ++ lifetime.toList ++ front →
      Spells b (.route (.padded 16 front) length (preferenceIn flags) (seconds lifetime))
  | dnsServers {b : Block} {reserved : Octets 2} {lifetime : Octets 4} {servers : List Ipv6} :
      b.kind = kindDns → servers ≠ [] →
      b.body = reserved.toList ++ lifetime.toList ++ servers.flatMap (·.toList) →
      Spells b (.dnsServers (seconds lifetime) servers)
  | unknown {b : Block} : b.kind ∉ knownKinds → Spells b (.unknown b.kind b.body)

/-- `b.Defect e`: the block does not fit its kind, and `e` is the first check
that says so. -/
inductive Defect : Block → WireError → Prop
  | linkLayer {b : Block} : b.kind = kindSource ∨ b.kind = kindTarget → b.units ≠ 1 →
      Defect b (.badOptionLength b.kind b.units)
  | networkUnits {b : Block} : b.kind = kindNetwork → b.units ≠ 4 →
      Defect b (.badOptionLength b.kind b.units)
  | networkLength {b : Block} : b.kind = kindNetwork → b.units = 4 → 128 < b.networkLength →
      Defect b (.badPrefixLength b.networkLength)
  | routeLong {b : Block} : b.kind = kindRoute → 3 < b.units →
      Defect b (.badOptionLength b.kind b.units)
  | routeLength {b : Block} : b.kind = kindRoute → b.units ≤ 3 → 128 < b.networkLength →
      Defect b (.badPrefixLength b.networkLength)
  | routeShort {b : Block} : b.kind = kindRoute → b.units ≤ 3 → b.networkLength ≤ 128 →
      b.units.toNat < routeUnits b.networkLength →
      Defect b (.badOptionLength b.kind b.units)
  | dns {b : Block} : b.kind = kindDns → b.units.toNat < 3 ∨ b.units.toNat % 2 = 0 →
      Defect b (.badOptionLength b.kind b.units)

end Block

/-! ## Rows of options -/

/-- The row is a chain of blocks that spell the options, in this order. -/
def RowSpells (bytes : List UInt8) (options : List MessageOption) : Prop :=
  ∃ blocks : List Block, bytes = blocks.flatMap Block.toList ∧
    List.Forall₂ Block.Spells blocks options

/-- What is wrong at the front of a row. -/
inductive FrontDefect : List UInt8 → WireError → Prop
  | stray (octet : UInt8) : FrontDefect [octet] (.truncated 1)
  | zeroLength (kind : UInt8) (rest : List UInt8) :
      FrontDefect (kind :: 0 :: rest) (.zeroLengthOption kind)
  | overrun {kind units : UInt8} {rest : List UInt8} :
      units ≠ 0 → rest.length + 2 < 8 * units.toNat →
      FrontDefect (kind :: units :: rest) (.optionOverrun kind)
  | block {b : Block} {rest : List UInt8} {e : WireError} :
      b.Defect e → FrontDefect (b.toList ++ rest) e

/-- The first defect of a row: what comes before it are blocks that fit. -/
def RowDefect (bytes : List UInt8) (e : WireError) : Prop :=
  ∃ (blocks : List Block) (rest : List UInt8), (∀ b ∈ blocks, b.Fits) ∧
    bytes = blocks.flatMap Block.toList ++ rest ∧ FrontDefect rest e

/-! ## Messages -/

/-- The message types that have a layout of their own. -/
def IsRouterType (icmpType : UInt8) : Prop :=
  icmpType = typeSolicitation ∨ icmpType = typeAdvertisement

/-- The octets before the options of a message. -/
def headerLength (icmpType : UInt8) : Nat := if icmpType = typeSolicitation then 8 else 16

/-- The octets before the options of a Router Solicitation. -/
def solicitationHeader (checksum : Octets 2) (reserved : Octets 4) : List UInt8 :=
  [typeSolicitation, 0] ++ checksum.toList ++ reserved.toList

/-- The octets before the options of a Router Advertisement. -/
def advertisementHeader (checksum : Octets 2) (hopLimit flags : UInt8) (lifetime : Octets 2)
    (reachable retransmit : Octets 4) : List UInt8 :=
  [typeAdvertisement, 0] ++ checksum.toList ++ [hopLimit, flags] ++ lifetime.toList ++
    reachable.toList ++ retransmit.toList

/-- A message that can be read, in numbers only. -/
def WellFormed (bytes : List UInt8) : Prop :=
  4 ≤ bytes.length ∧
    (¬ IsRouterType (octet bytes 0) ∨
      octet bytes 1 = 0 ∧ headerLength (octet bytes 0) ≤ bytes.length ∧
        ∃ blocks : List Block,
          bytes.drop (headerLength (octet bytes 0)) = blocks.flatMap Block.toList ∧
          ∀ b ∈ blocks, b.Fits)

/-- `Spells bytes m`: the octets are laid out as the message `m`. -/
inductive Spells : List UInt8 → Message → Prop
  | solicitation {checksum : Octets 2} {reserved : Octets 4} {rest : List UInt8}
      {options : List MessageOption} :
      RowSpells rest options →
      Spells (solicitationHeader checksum reserved ++ rest) (.solicitation options)
  | advertisement {checksum lifetime : Octets 2} {hopLimit flags : UInt8}
      {reachable retransmit : Octets 4} {rest : List UInt8} {options : List MessageOption} :
      RowSpells rest options →
      Spells (advertisementHeader checksum hopLimit flags lifetime reachable retransmit ++ rest)
        (.advertisement
          { hopLimit
            managed := flags.toNat.testBit 7
            other := flags.toNat.testBit 6
            preference := preferenceIn flags
            routerLifetime := seconds lifetime
            reachableTime := milliseconds reachable
            retransmitTimer := milliseconds retransmit
            options })
  | other {icmpType : UInt8} {rest : List UInt8} :
      ¬ IsRouterType icmpType → 3 ≤ rest.length → Spells (icmpType :: rest) (.other icmpType)

/-- The first defect of a message. -/
inductive MessageDefect : List UInt8 → WireError → Prop
  | short {bytes : List UInt8} : bytes.length < 4 → MessageDefect bytes (.truncated bytes.length)
  | code {bytes : List UInt8} : 4 ≤ bytes.length → IsRouterType (octet bytes 0) →
      octet bytes 1 ≠ 0 → MessageDefect bytes (.badCode (octet bytes 0) (octet bytes 1))
  | header {bytes : List UInt8} : 4 ≤ bytes.length → IsRouterType (octet bytes 0) →
      octet bytes 1 = 0 → bytes.length < headerLength (octet bytes 0) →
      MessageDefect bytes (.truncated bytes.length)
  | option {bytes : List UInt8} {e : WireError} : IsRouterType (octet bytes 0) →
      octet bytes 1 = 0 → headerLength (octet bytes 0) ≤ bytes.length →
      RowDefect (bytes.drop (headerLength (octet bytes 0))) e → MessageDefect bytes e

end MeshNode.Ndp
