import MeshNode.Ndp.Message

/-!
# Reading neighbour discovery messages

A message is a fixed header and a chain of options, each of which says its kind and its
length in units of eight octets. Reading stops at the first defect: the header comes first,
then each option in turn.
-/

namespace MeshNode.Ndp

/-- The number in `width` octets from `offset` on. -/
def field (bytes : List UInt8) (offset width : Nat) : Nat :=
  beValue ((bytes.drop offset).take width)

/-- The octet at `offset`. -/
def octet (bytes : List UInt8) (offset : Nat) : UInt8 := bytes.getD offset 0

/-- Whether any bit of a mask is set. -/
def hasFlag (flags mask : UInt8) : Bool := flags &&& mask != 0

/-- The preference that a flags octet holds; the reserved value counts as medium. -/
def Preference.ofFlags (flags : UInt8) : Preference :=
  match (flags >>> 3 &&& 3).toNat with
  | 1 => .high
  | 3 => .low
  | _ => .medium

/-- The addresses that a row of octets holds, sixteen to each. -/
def addresses : (count : Nat) → List UInt8 → List Ipv6
  | 0, _ => []
  | count + 1, bytes => Octets.padded 16 (bytes.take 16) :: addresses count (bytes.drop 16)

/-- One option, from its whole block of `8 * length` octets. -/
def decodeOption (kind length : UInt8) (block : List UInt8) : Except WireError MessageOption :=
  if kind = kindSource ∨ kind = kindTarget then
    if length ≠ 1 then .error (.badOptionLength kind length)
    else .ok (.linkLayer (kind == kindSource) (Octets.padded 6 (block.drop 2)))
  else if kind = kindNetwork then
    if length ≠ 4 then .error (.badOptionLength kind length)
    else if octet block 2 > 128 then .error (.badPrefixLength (octet block 2))
    else .ok <| .network (Octets.padded 16 (block.drop 16)) (octet block 2)
      (hasFlag (octet block 3) 0x80) (hasFlag (octet block 3) 0x40)
      (.ofSecs (field block 4 4)) (.ofSecs (field block 8 4))
  else if kind = kindRoute then
    if length > 3 then .error (.badOptionLength kind length)
    else match routeOctets? (octet block 2) with
      | none => .error (.badPrefixLength (octet block 2))
      | some n =>
        if length.toNat < 1 + n / 8 then .error (.badOptionLength kind length)
        else .ok <| .route (Octets.padded 16 (block.drop 8)) (octet block 2)
          (.ofFlags (octet block 3)) (.ofSecs (field block 4 4))
  else if kind = kindDns then
    if length < 3 ∨ length % 2 = 0 then .error (.badOptionLength kind length)
    else .ok <| .dnsServers (.ofSecs (field block 4 4))
      (addresses (length.toNat / 2) (block.drop 8))
  else .ok (.unknown kind (block.drop 2))

/-- The options in a row of octets. -/
def decodeOptions (bytes : List UInt8) : Except WireError (List MessageOption) :=
  match bytes with
  | [] => .ok []
  | [_] => .error (.truncated 1)
  | kind :: length :: rest =>
    if length = 0 then .error (.zeroLengthOption kind)
    else
      let block := (kind :: length :: rest).take (8 * length.toNat)
      if block.length < 8 * length.toNat then .error (.optionOverrun kind)
      else do
        let option ← decodeOption kind length block
        let options ← decodeOptions (rest.drop (8 * length.toNat - 2))
        return option :: options
termination_by bytes.length

/-- The message that some octets spell, from its type on. -/
def decode (bytes : List UInt8) : Except WireError Message :=
  if bytes.length < 4 then .error (.truncated bytes.length)
  else
    let icmpType := octet bytes 0
    let code := octet bytes 1
    if icmpType = typeSolicitation then
      if code ≠ 0 then .error (.badCode icmpType code)
      else if bytes.length < 8 then .error (.truncated bytes.length)
      else (decodeOptions (bytes.drop 8)).map .solicitation
    else if icmpType = typeAdvertisement then
      if code ≠ 0 then .error (.badCode icmpType code)
      else if bytes.length < 16 then .error (.truncated bytes.length)
      else (decodeOptions (bytes.drop 16)).map fun options => .advertisement
        { hopLimit := octet bytes 4
          managed := hasFlag (octet bytes 5) 0x80
          other := hasFlag (octet bytes 5) 0x40
          preference := .ofFlags (octet bytes 5)
          routerLifetime := .ofSecs (field bytes 6 2)
          reachableTime := .ofMillis (field bytes 8 4)
          retransmitTimer := .ofMillis (field bytes 12 4)
          options }
    else .ok (.other icmpType)

end MeshNode.Ndp
