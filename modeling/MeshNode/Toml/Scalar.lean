import MeshNode.Binary64
import MeshNode.Text.Lines
import MeshNode.Text.Integer
import MeshNode.Toml.Value

/-!
# Numbers, dates and truth values in TOML

What a word of a document that is no text stands for. An integer must fit 64 bits with
sign, a floating-point number must not exceed every finite one, and the parts of a date
must be in range.
-/

namespace MeshNode.Toml

open MeshNode.Text

/-! ## Digits -/

/-- Digits of a class, with single underscores between them, without the underscores. -/
def grouped? (digit : Char → Bool) : List Char → Option (List Char)
  | [] => none
  | [c] => if digit c then some [c] else none
  | c :: '_' :: rest => if digit c then (grouped? digit rest).map (c :: ·) else none
  | c :: rest => if digit c then (grouped? digit rest).map (c :: ·) else none

/-- The value of digits of a radix up to 16. -/
def valueOf (radix : Nat) (digits : List Char) : Nat :=
  digits.foldl (fun acc c => acc * radix + (hexDigit? c).getD 0) 0

/-- A sign, whether it is negative, and what follows it. -/
def cutSign : List Char → Bool × List Char
  | '+' :: rest => (false, rest)
  | '-' :: rest => (true, rest)
  | s => (false, s)

/-! ## Integers -/

/-- An integer that fits 64 bits with sign. -/
def fitting? (n : Int) : Option Toml :=
  if -0x8000000000000000 ≤ n ∧ n < 0x8000000000000000 then some (.integer n) else none

/-- The digits of a decimal number without leading zeros. -/
def decimal? (s : List Char) : Option (List Char) := do
  let digits ← grouped? isDecimal s
  match digits with
  | '0' :: _ :: _ => none
  | _ => some digits

/-- A whole number in one of four radices; only a decimal one may have a sign. -/
def integer? (s : List Char) : Option Toml :=
  match s with
  | '0' :: 'x' :: rest => do fitting? (valueOf 16 (← grouped? isHex rest))
  | '0' :: 'o' :: rest => do
    fitting? (valueOf 8 (← grouped? (fun c => '0' ≤ c ∧ c ≤ '7') rest))
  | '0' :: 'b' :: rest => do fitting? (valueOf 2 (← grouped? (fun c => c == '0' || c == '1') rest))
  | _ => do
    let (negative, rest) := cutSign s
    let n : Int := valueOf 10 (← decimal? rest)
    fitting? (if negative then -n else n)

/-! ## Floating-point numbers -/

/-- Whether digits times a power of ten are below every number that rounds to infinity.
Exponents far out of range are settled without the power. -/
def isFinite (digits : List Char) (exponent : Int) : Bool :=
  let m := valueOf 10 digits
  let size : Int := digits.length
  if m = 0 ∨ size + exponent < 300 then true
  else if exponent > 400 then false
  else
    match exponent with
    | .ofNat k => (Binary64.ofFraction? false (m * Nat.pow 10 k) 1).isSome
    | .negSucc k => (Binary64.ofFraction? false m (Nat.pow 10 (k + 1))).isSome

/-- The digits of a fraction or an exponent, which may begin with zeros. -/
def zeroLed? (s : List Char) : Option (List Char) := grouped? isDecimal s

/-- The value of an exponent. -/
def exponent? (s : List Char) : Option Int := do
  let (negative, rest) := cutSign s
  let n : Int := valueOf 10 (← zeroLed? rest)
  return if negative then -n else n

/-- A floating-point number. -/
def float? (s : List Char) : Option Toml := do
  let (negative, rest) := cutSign s
  if rest = "inf".toList ∨ rest = "nan".toList then return .float
  let (mantissa, power) := breakAt (fun c => c == 'e' || c == 'E') rest
  let (whole, fraction) := breakAt (· == '.') mantissa
  if power.isEmpty ∧ fraction.isEmpty then none
  let whole ← decimal? whole
  let fraction ← if fraction.isEmpty then some [] else zeroLed? (fraction.drop 1)
  let exponent ← if power.isEmpty then some 0 else exponent? (power.drop 1)
  if negative ∨ isFinite (whole ++ fraction) (exponent - fraction.length) then
    return .float
  else none

/-! ## Dates and times -/

/-- A number of exactly so many decimal digits. -/
def fixed? (width : Nat) (s : List Char) : Option Nat :=
  if s.length = width ∧ s.all isDecimal then some (valueOf 10 s) else none

/-- The number of days of a month. -/
def daysIn (year month : Nat) : Nat :=
  if month = 2 then
    if year % 4 = 0 ∧ (year % 100 ≠ 0 ∨ year % 400 = 0) then 29 else 28
  else if [4, 6, 9, 11].contains month then 30 else 31

/-- Whether a text is a date. -/
def isDate (s : List Char) : Bool :=
  match splitAt '-' s with
  | [y, m, d] =>
    match fixed? 4 y, fixed? 2 m, fixed? 2 d with
    | some year, some month, some day =>
      1 ≤ month ∧ month ≤ 12 ∧ 1 ≤ day ∧ day ≤ daysIn year month
    | _, _, _ => false
  | _ => false

/-- Whether a text is a number of two digits up to a bound. -/
def isUpTo (bound : Nat) (s : List Char) : Bool :=
  match fixed? 2 s with
  | some n => n ≤ bound
  | none => false

/-- Whether a text is a time of day. -/
def isTime (s : List Char) : Bool :=
  let (clock, fraction) := breakAt (· == '.') s
  (fraction.isEmpty || (1 < fraction.length && (fraction.drop 1).all isDecimal)) &&
    match splitAt ':' clock with
    | [h, m, sec] => isUpTo 23 h && isUpTo 59 m && isUpTo 60 sec
    | _ => false

/-- Whether a text is a time of day, perhaps with an offset. -/
def isOffsetTime (s : List Char) : Bool :=
  match breakAt (fun c => c == 'Z' || c == 'z' || c == '+' || c == '-') s with
  | (time, []) => isTime time
  | (time, [mark]) => isTime time && (mark == 'Z' || mark == 'z')
  | (time, mark :: offset) =>
    isTime time && (mark == '+' || mark == '-') &&
      match splitAt ':' offset with
      | [h, m] => isUpTo 23 h && isUpTo 59 m
      | _ => false

/-- A date, a time, or both with a mark between them. -/
def datetime? (s : List Char) : Option Toml :=
  let date := s.take 10
  let valid := isTime s || (isDate date &&
    match s.drop 10 with
    | [] => true
    | mark :: time => (mark == 'T' || mark == 't' || mark == ' ') && isOffsetTime time)
  if valid then some .datetime else none

/-! ## Words -/

/-- A character of a word. -/
def isWordChar (c : Char) : Bool :=
  c.isAlphanum || c == '+' || c == '-' || c == '_' || c == '.' || c == ':'

/-- What a word stands for. -/
def ofWord? (s : List Char) : Option Toml :=
  if s = "true".toList then some (.boolean true)
  else if s = "false".toList then some (.boolean false)
  else datetime? s <|> float? s <|> integer? s

/-- The word a text begins with, and what follows it. A date may be followed by a space and
a time. -/
def cutWord (s : List Char) : List Char × List Char :=
  let (word, rest) := breakAt (! isWordChar ·) s
  match rest with
  | ' ' :: tail =>
    let (time, after) := breakAt (! isWordChar ·) tail
    if isDate word && (time.head?.any isDecimal) then (word ++ ' ' :: time, after)
    else (word, rest)
  | _ => (word, rest)

/-- The value of the word a text begins with, and what follows it. -/
def scalar? (s : List Char) : Option (Toml × List Char) :=
  let (word, rest) := cutWord s
  (ofWord? word).map (·, rest)

end MeshNode.Toml
