/-!
# Unsigned integers in text

Reading a decimal number below a bound. Digits are read from the left, and the first
offending character or the first digit that exceeds the bound decides the error.
-/

namespace MeshNode.Text

/-- Why a text is no unsigned integer in range. -/
inductive IntegerError
  | empty
  | invalidDigit
  | tooLarge
deriving DecidableEq

/-- The wording of an integer error. -/
def IntegerError.message : IntegerError → String
  | .empty => "cannot parse integer from empty string"
  | .invalidDigit => "invalid digit found in string"
  | .tooLarge => "number too large to fit in target type"

/-- The value of a decimal digit. -/
def decimalDigit? (c : Char) : Option Nat :=
  if '0' ≤ c ∧ c ≤ '9' then some (c.toNat - '0'.toNat) else none

/-- The value of a hexadecimal digit of either case. -/
def hexDigit? (c : Char) : Option Nat :=
  if '0' ≤ c ∧ c ≤ '9' then some (c.toNat - '0'.toNat)
  else if 'a' ≤ c ∧ c ≤ 'f' then some (c.toNat - 'a'.toNat + 10)
  else if 'A' ≤ c ∧ c ≤ 'F' then some (c.toNat - 'A'.toNat + 10)
  else none

/-- The digits of a number in lower-case hexadecimal, without leading zeros. -/
def hexDigits (n : Nat) : List Char := Nat.toDigits 16 n

/-- Whether a character is a decimal digit. -/
def isDecimal (c : Char) : Bool := (decimalDigit? c).isSome

/-- Whether a character is a hexadecimal digit. -/
def isHex (c : Char) : Bool := (hexDigit? c).isSome

/-- Appends digits to a number below `bound`. -/
def readDigits (bound : Nat) : (acc : Nat) → List Char → Except IntegerError Nat
  | acc, [] => .ok acc
  | acc, c :: rest =>
    match decimalDigit? c with
    | none => .error .invalidDigit
    | some d =>
      let next := acc * 10 + d
      if next < bound then readDigits bound next rest else .error .tooLarge

/-- An unsigned decimal number below `bound`, with an optional leading plus sign. -/
def parseUnsigned (bound : Nat) (s : String) : Except IntegerError Nat :=
  match s.toList with
  | [] => .error .empty
  | ['+'] => .error .invalidDigit
  | '+' :: digits => readDigits bound 0 digits
  | digits => readDigits bound 0 digits

/-- An unsigned number of 16 bits. -/
def parsePort (s : String) : Except IntegerError Nat := parseUnsigned 0x10000 s

/-- An unsigned number of 64 bits. -/
def parseCount (s : String) : Except IntegerError Nat := parseUnsigned 0x10000000000000000 s

end MeshNode.Text
