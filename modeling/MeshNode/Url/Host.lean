import MeshNode.Text.Folding
import MeshNode.Text.Percent
import MeshNode.Text.Punycode
import MeshNode.Text.Visible
import MeshNode.Url.Basic

/-!
# Hosts in URLs

A host in brackets is an IPv6 address. For a special scheme the host is a domain in ASCII and
lower case, and one whose last label is a number is an IPv4 address, whose parts may be
decimal, octal or hexadecimal. For any other scheme it is kept as given, apart from control and
non-ASCII characters, which are encoded.
-/

namespace MeshNode.Host

open MeshNode.Text

/-! ## Plain hosts -/

/-- Control characters are encoded everywhere in a URL. -/
def isControl (c : Char) : Bool := c.toNat < 0x20 || c.toNat == 0x7f

/-- The characters that no host may contain. -/
def isForbidden (c : Char) : Bool :=
  "\x00\t\n\r #/:<>?@[\\]^|".toList.contains c

/-- An IPv6 address in brackets, given the text after the opening one. -/
def parseBracketed (s : List Char) : Except UrlError Host :=
  match s.reverse with
  | ']' :: inner =>
    match Ipv6.parse? inner.reverse with
    | some a => .ok (.ipv6 a)
    | none => .error .invalidIpv6
  | _ => .error .invalidIpv6

/-- The host of a scheme without rules of its own. The empty text is no host. -/
def parsePlain (s : List Char) : Except UrlError (Option Host) :=
  match s with
  | [] => .ok none
  | '[' :: rest => (parseBracketed rest).map some
  | _ =>
    if s.any isForbidden then .error .invalidHostCharacter
    else .ok (some (.name (String.ofList (percentEncode isControl s))))

/-! ## Numbers as addresses -/

/-- A part of a numeric address: its value, or none if it is too large for any. -/
inductive Number
  | value (n : Nat)
  | huge
deriving DecidableEq

/-- The value of digits of a radix. -/
def digitsValue? (radix : Nat) (s : List Char) : Option Nat :=
  s.foldlM (fun acc c => do
    let d ← hexDigit? c
    if d < radix then some (acc * radix + d) else none) 0

/-- A part of a numeric address: `0x` begins a hexadecimal number, a leading zero an octal one. -/
def number? (s : List Char) : Option Number :=
  let (radix, digits) := match s with
    | '0' :: 'x' :: rest => (16, rest)
    | '0' :: 'X' :: rest => (16, rest)
    | '0' :: c :: rest => (8, c :: rest)
    | _ => (10, s)
  if s.isEmpty then none
  else (digitsValue? radix digits).map fun n => if n < 0x100000000 then .value n else .huge

/-- The labels of a domain, without an empty one after a final dot. -/
def labels (s : List Char) : List (List Char) :=
  let parts := splitAt '.' s
  if parts.getLast? = some [] then parts.dropLast else parts

/-- Whether the last label of a domain is a number. -/
def endsInNumber (s : List Char) : Bool :=
  match (labels s).getLast? with
  | none => false
  | some last => (!last.isEmpty && last.all isDecimal) || (number? last).isSome

/-- The address of some parts: the last part fills the octets that the others leave. -/
def addressOf? (parts : List Nat) : Option Ipv4 :=
  match parts.reverse with
  | [] => none
  | last :: front =>
    if parts.length > 4 ∨ last ≥ Nat.pow 256 (5 - parts.length) ∨ front.any (· > 255) then none
    else some (Octets.padded 4
      (front.reverse.map UInt8.ofNat ++ beBytes (5 - parts.length) last))

/-- A numeric address. -/
def parseNumeric (s : List Char) : Except UrlError Host :=
  let parts := (labels s).mapM fun l =>
    match number? l with
    | some (.value n) => some n
    | _ => none
  match parts.bind addressOf? with
  | some a => .ok (.ipv4 a)
  | none => .error .invalidIpv4

/-! ## Domains -/

/-- The characters that no domain may contain. -/
def isForbiddenInDomain (c : Char) : Bool :=
  isControl c || isForbidden c || c == '%'

/-- Whether a character may stand in a domain. -/
def isDomainChar (c : Char) : Bool :=
  if c.toNat < 0x80 then ! isForbiddenInDomain c else isVisible c

/-- A label of a domain in ASCII. -/
def labelToAscii (label : List Char) : List Char :=
  if label.any Punycode.isBeyondAscii then "xn--".toList ++ Punycode.encode label else label

/-- The ASCII form of a domain: its characters are folded, and labels that are not ASCII
then are written in Punycode. -/
def domainToAscii (bytes : List UInt8) : Except UrlError (List Char) :=
  match ofUtf8? bytes with
  | none => .error .invalidDomainName
  | some s =>
    let folded := foldText s.toList
    if folded.all isDomainChar then
      .ok (['.'].intercalate ((splitAt '.' folded).map labelToAscii))
    else .error .invalidDomainName

/-- The host of a special scheme. -/
def parseDomain (s : List Char) : Except UrlError Host :=
  match s with
  | '[' :: rest => parseBracketed rest
  | _ => do
    let domain ← domainToAscii (percentDecode (utf8 (String.ofList s)))
    if domain.isEmpty then .error .emptyHost
    else if endsInNumber domain then parseNumeric domain
    else .ok (.name (String.ofList domain))

end MeshNode.Host
