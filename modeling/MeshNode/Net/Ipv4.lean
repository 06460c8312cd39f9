import MeshNode.Octets
import MeshNode.Text.Integer
import MeshNode.Text.Lines

/-!
# IPv4 addresses in text

The strict dotted quad: four decimal parts below 256, without leading zeros.
-/

namespace MeshNode.Ipv4

open MeshNode.Text

/-- One part of a dotted quad. -/
def part? (s : List Char) : Option UInt8 :=
  match s with
  | ['0'] => some 0
  | '0' :: _ => none
  | [] => none
  | _ =>
    if s.length ≤ 3 then
      match readDigits 256 0 s with
      | .ok n => some (UInt8.ofNat n)
      | .error _ => none
    else none

/-- The address a dotted quad spells. -/
def parse? (s : List Char) : Option Ipv4 := do
  let parts ← (splitAt '.' s).mapM part?
  Octets.ofList? parts

/-- The dotted quad of an address. -/
def render (a : Ipv4) : String :=
  ".".intercalate (a.toList.map fun b => toString b.toNat)

end MeshNode.Ipv4
