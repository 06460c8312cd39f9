import MeshNode.Net.Ipv4
import MeshNode.Text.Hex

/-!
# IPv6 addresses in text

Reading takes eight groups of up to four hexadecimal digits, of which one run of at least
one group may be written `::`, and of which the last two may be a dotted quad. Writing
shortens the first of the longest runs of two or more zero groups.
-/

namespace MeshNode.Ipv6

open MeshNode.Text

/-! ## Groups -/

/-- The eight 16-bit groups of an address. -/
def groups (a : Ipv6) : List Nat :=
  go a.toList
where
  go : List UInt8 → List Nat
    | hi :: lo :: rest => (hi.toNat * 256 + lo.toNat) :: go rest
    | _ => []

/-- The octets of some groups. -/
def groupOctets (gs : List Nat) : List UInt8 := gs.flatMap (beBytes 2)

/-- The address of eight groups. -/
def ofGroups? (gs : List Nat) : Option Ipv6 := Octets.ofList? (groupOctets gs)

/-! ## Reading -/

/-- One group: one to four hexadecimal digits. -/
def group? (s : List Char) : Option Nat :=
  if s.length = 0 ∨ 4 < s.length then none
  else s.foldlM (fun acc c => (hexDigit? c).map (acc * 16 + ·)) 0

/-- Groups between colons, the last of which may be a dotted quad if `quad` allows it. -/
def pieces? (quad : Bool) : List (List Char) → Option (List Nat)
  | [] => some []
  | [last] =>
    match group? last with
    | some g => some [g]
    | none =>
      if quad then
        (Ipv4.parse? last).map fun a => [beValue (a.toList.take 2), beValue (a.toList.drop 2)]
      else none
  | piece :: rest => do
    let g ← group? piece
    let gs ← pieces? quad rest
    return g :: gs

/-- Groups between colons; the empty text holds none. -/
def groupList? (quad : Bool) (s : List Char) : Option (List Nat) :=
  if s.isEmpty then some [] else pieces? quad (splitAt ':' s)

/-- The text before and after the first `::`. -/
def splitGap? : List Char → Option (List Char × List Char)
  | ':' :: ':' :: rest => some ([], rest)
  | c :: rest => (splitGap? rest).map fun (before, after) => (c :: before, after)
  | [] => none

/-- The address a text spells. -/
def parse? (s : List Char) : Option Ipv6 :=
  match splitGap? s with
  | some (before, after) => do
    let front ← groupList? false before
    let back ← groupList? true after
    if front.length + back.length ≤ 7 then
      ofGroups? (front ++ List.replicate (8 - front.length - back.length) 0 ++ back)
    else none
  | none => do
    let gs ← pieces? true (splitAt ':' s)
    if gs.length = 8 then ofGroups? gs else none

/-! ## Writing -/

/-- A run of zero groups: where it begins and how long it is. -/
structure ZeroRun where
  start : Nat
  length : Nat
deriving DecidableEq

/-- The first of the longest runs of zero groups, from position `here` on, where `current` is
the run that ends there. -/
def longestRun (gs : List Nat) (here : Nat) (current best : ZeroRun) : ZeroRun :=
  match gs with
  | [] => best
  | 0 :: rest =>
    let run := ⟨if current.length = 0 then here else current.start, current.length + 1⟩
    longestRun rest (here + 1) run (if run.length > best.length then run else best)
  | _ :: rest => longestRun rest (here + 1) ⟨0, 0⟩ best

/-- Groups in hexadecimal between colons. -/
def joinGroups (gs : List Nat) : String :=
  ":".intercalate (gs.map fun g => String.ofList (hexDigits g))

/-- The groups of an address with the longest run of zeros shortened. -/
def renderHex (a : Ipv6) : String :=
  let gs := groups a
  let run := longestRun gs 0 ⟨0, 0⟩ ⟨0, 0⟩
  if run.length < 2 then joinGroups gs
  else joinGroups (gs.take run.start) ++ "::" ++ joinGroups (gs.drop (run.start + run.length))

/-- The text of an address. An address that stands for an IPv4 one shows it as a dotted quad. -/
def render (a : Ipv6) : String :=
  match groups a with
  | [0, 0, 0, 0, 0, 0xffff, hi, lo] =>
    "::ffff:" ++ Ipv4.render (Octets.padded 4 (beBytes 2 hi ++ beBytes 2 lo))
  | _ => renderHex a

end MeshNode.Ipv6
