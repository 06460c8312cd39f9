import MeshNode.Ndp.Message

/-!
# Writing Router Advertisements

The octets of a Router Advertisement from its type on, with a zero checksum. A duration too
long for its field is written as the field's greatest value; an option that has no octets
makes the whole message fail, and of several the first decides the error.
-/

namespace MeshNode.Ndp

/-- Whole seconds in 16 bits. -/
def secs16 (d : Duration) : List UInt8 := beBytes 2 (min d.secs 0xffff)

/-- Whole seconds in 32 bits. -/
def secs32 (d : Duration) : List UInt8 := beBytes 4 (min d.secs 0xffffffff)

/-- Whole milliseconds in 32 bits. -/
def millis32 (d : Duration) : List UInt8 := beBytes 4 (min d.millis 0xffffffff)

/-- The two preference bits, in the place where flags hold them. -/
def Preference.bits : Preference → UInt8
  | .high => 0x08
  | .medium => 0x00
  | .low => 0x18

/-- A flag's bit, if it is set. -/
def flagBit (bit : UInt8) (on : Bool) : UInt8 := if on then bit else 0

/-- The octets of an option. -/
def MessageOption.encode : MessageOption → Except WireError (List UInt8)
  | .network address length onLink autonomous valid preferred =>
    if length > 128 then .error (.badPrefixLength length)
    else .ok <|
      [kindNetwork, 4, length, flagBit 0x80 onLink ||| flagBit 0x40 autonomous] ++
        secs32 valid ++ secs32 preferred ++ [0, 0, 0, 0] ++ address.toList
  | .route address length preference lifetime =>
    match routeOctets? length with
    | none => .error (.badPrefixLength length)
    | some n => .ok <|
      [kindRoute, UInt8.ofNat (1 + n / 8), length, preference.bits] ++
        secs32 lifetime ++ address.toList.take n
  | .linkLayer source address =>
    .ok ([if source then kindSource else kindTarget, 1] ++ address.toList)
  | .dnsServers lifetime servers =>
    let units := 1 + 2 * servers.length
    if units > 255 then .error (.badOptionLength kindDns 255)
    else .ok <|
      [kindDns, UInt8.ofNat units, 0, 0] ++ secs32 lifetime ++ servers.flatMap (·.toList)
  | .unknown kind body =>
    let total := body.length + 2
    if total % 8 ≠ 0 ∨ total / 8 > 255 then
      .error (.badOptionLength kind (UInt8.ofNat (total / 8)))
    else .ok ([kind, UInt8.ofNat (total / 8)] ++ body)

/-- The octets of some options, one after the other. -/
def encodeOptions : List MessageOption → Except WireError (List UInt8)
  | [] => .ok []
  | o :: rest => do
    let bytes ← o.encode
    let tail ← encodeOptions rest
    return bytes ++ tail

/-- The sixteen octets before the options. -/
def RouterAdvertisement.header (ra : RouterAdvertisement) : List UInt8 :=
  [typeAdvertisement, 0, 0, 0, ra.hopLimit,
    flagBit 0x80 ra.managed ||| flagBit 0x40 ra.other ||| ra.preference.bits] ++
    secs16 ra.routerLifetime ++ millis32 ra.reachableTime ++ millis32 ra.retransmitTimer

/-- The octets of a Router Advertisement. -/
def RouterAdvertisement.encode (ra : RouterAdvertisement) : Except WireError (List UInt8) := do
  let options ← encodeOptions ra.options
  return ra.header ++ options

end MeshNode.Ndp
