import MeshNode.Text.Quoted

/-!
# Hexadecimal text

Octets written as pairs of hexadecimal digits, lower case on output and either case on input.
-/

namespace MeshNode.Text

/-- The lower-case digit of a value below 16. -/
def hexChar (n : Nat) : Char :=
  if n < 10 then Char.ofNat ('0'.toNat + n) else Char.ofNat ('a'.toNat + (n - 10))

/-- The upper-case digit of a value below 16. -/
def hexCharUpper (n : Nat) : Char :=
  if n < 10 then Char.ofNat ('0'.toNat + n) else Char.ofNat ('A'.toNat + (n - 10))

/-- The two digits of each octet. -/
def encodeHex (bytes : List UInt8) : List Char :=
  bytes.flatMap fun b => [hexChar (b.toNat / 16), hexChar (b.toNat % 16)]

/-- Why a text is no hexadecimal octet string. -/
inductive HexError
  | oddLength
  | badDigit (octet : UInt8) (index : Nat)
deriving DecidableEq

/-- The value of an octet that holds a hexadecimal digit. -/
def hexOctet? (b : UInt8) : Option Nat := hexDigit? (Char.ofNat b.toNat)

/-- Reads pairs of digits; `index` is where the text at hand begins. -/
def decodePairs : (index : Nat) → List UInt8 → Except HexError (List UInt8)
  | index, hi :: lo :: rest =>
    match hexOctet? hi, hexOctet? lo with
    | none, _ => .error (.badDigit hi index)
    | some _, none => .error (.badDigit lo (index + 1))
    | some h, some l => do
      let tail ← decodePairs (index + 2) rest
      return UInt8.ofNat (h * 16 + l) :: tail
  | _, _ => .ok []

/-- Reads a text, octet by octet, as pairs of hexadecimal digits. The length is checked first. -/
def decodeHex (s : List UInt8) : Except HexError (List UInt8) :=
  if s.length % 2 = 1 then .error .oddLength else decodePairs 0 s

/-- The wording of a hexadecimal error; an octet is shown as the character of that number. -/
def HexError.message : HexError → String
  | .oddLength => "Odd number of digits"
  | .badDigit octet index =>
    s!"Invalid character {quotedChar (Char.ofNat octet.toNat)} at position {index}"

end MeshNode.Text
