import MeshNode.Text.Hex
import MeshNode.Text.Utf8

/-!
# Percent encoding

An octet written as a percent sign and two hexadecimal digits. Decoding leaves a percent
sign that no two digits follow as it is.
-/

namespace MeshNode.Text

/-- A percent sign and the two upper-case digits of an octet. -/
def percentOctet (b : UInt8) : List Char :=
  ['%', hexCharUpper (b.toNat / 16), hexCharUpper (b.toNat % 16)]

/-- A text with every character of a class, and every character that is not ASCII, encoded. -/
def percentEncode (encoded : Char → Bool) (s : List Char) : List Char :=
  s.flatMap fun c =>
    if encoded c || c.toNat ≥ 0x80 then (utf8Char c).flatMap percentOctet else [c]

/-- The octets that a percent-encoded octet string stands for. -/
def percentDecode : List UInt8 → List UInt8
  | 0x25 :: hi :: lo :: rest =>
    match hexOctet? hi, hexOctet? lo with
    | some h, some l => UInt8.ofNat (h * 16 + l) :: percentDecode rest
    | _, _ => 0x25 :: percentDecode (hi :: lo :: rest)
  | b :: rest => b :: percentDecode rest
  | [] => []

end MeshNode.Text
