/-!
# Binary floating-point numbers

The finite numbers of 64-bit binary floating point, each as a sign, a significand and an
exponent of two. Every operation is exact on naturals until one final rounding to nearest,
ties to even, so its result is determined by the real number that it rounds. The last
section finds the fewest decimal digits that read back as the same number.
-/

namespace MeshNode

/-- The number `significand * 2 ^ exponent`, negated if `negative`. Numbers are kept with a
significand of 53 bits, or a smaller one at the least exponent, −1074. -/
structure Binary64 where
  negative : Bool
  significand : Nat
  exponent : Int
deriving DecidableEq

namespace Binary64

/-! ## Rounding -/

/-- The least exponent. -/
def minExponent : Int := -1074

/-- The greatest exponent. -/
def maxExponent : Int := 971

/-- `n * 2 ^ e` as a fraction. -/
def scaled (n : Nat) (e : Int) : Nat × Nat :=
  match e with
  | .ofNat k => (n * Nat.pow 2 k, 1)
  | .negSucc k => (n, Nat.pow 2 (k + 1))

/-- The quotient rounded to nearest, ties to even. -/
def roundDiv (num den : Nat) : Nat :=
  let q := num / den
  let r := num % den
  if 2 * r > den ∨ (2 * r = den ∧ q % 2 = 1) then q + 1 else q

/-- The exponent at which a positive fraction has a significand of 53 bits, or the least. -/
def exponentOf (num den : Nat) : Int :=
  let guess : Int := (num.log2 : Int) - (den.log2 : Int) - 52
  let fraction := scaled den guess
  let e := if num * fraction.2 < 0x10000000000000 * fraction.1 then guess - 1 else guess
  max e minExponent

/-- The number nearest to `num / den`, or none if it is too large. -/
def ofFraction? (negative : Bool) (num den : Nat) : Option Binary64 :=
  if num = 0 then some ⟨negative, 0, minExponent⟩
  else
    let e := exponentOf num den
    let fraction := scaled den e
    let m := roundDiv (num * fraction.2) fraction.1
    let (m, e) := if m = 0x20000000000000 then (0x10000000000000, e + 1) else (m, e)
    if e > maxExponent then none else some ⟨negative, m, e⟩

/-- The magnitude as a fraction. -/
def magnitude (x : Binary64) : Nat × Nat := scaled x.significand x.exponent

/-- The rounded product. -/
def mul? (x y : Binary64) : Option Binary64 :=
  let (a, b) := x.magnitude
  let (c, d) := y.magnitude
  ofFraction? (x.negative != y.negative) (a * c) (b * d)

/-- The rounded quotient by a number other than zero. -/
def div? (x y : Binary64) : Option Binary64 :=
  let (a, b) := x.magnitude
  let (c, d) := y.magnitude
  ofFraction? (x.negative != y.negative) (a * d) (b * c)

/-- The number with its sign changed. -/
def neg (x : Binary64) : Binary64 := { x with negative := !x.negative }

/-- Whether the number is zero, of either sign. -/
def isZero (x : Binary64) : Bool := x.significand == 0

/-! ## Shortest digits -/

/-- The decimal number `0.d₁d₂… * 10 ^ point`. -/
structure Decimal where
  digits : List Char
  point : Int
deriving DecidableEq

/-- Twice the half-open question of which reals round to a number: the neighbourhood of
`m * 2 ^ e` in quarter steps of `2 ^ e`, as its lower end and upper end. -/
def neighbourhood (x : Binary64) : Nat × Nat :=
  let m := x.significand
  let below := if m = 0x10000000000000 ∧ x.exponent > minExponent then 1 else 2
  (4 * m - below, 4 * m + 2)

/-- The decimal exponent of the first digit of a positive fraction: the least `p` for which
the fraction is below `10 ^ p`. The fuel bounds how far below one a fraction may lie. -/
def firstPlace (num den : Nat) : (fuel : Nat) → Int
  | 0 => 0
  | fuel + 1 =>
    if num ≥ den then ((Nat.toDigits 10 (num / den)).length : Int)
    else if num * 10 ≥ den then 0
    else firstPlace (num * 10) den fuel - 1

/-- `10 ^ p` as a fraction. -/
def powerOfTen (p : Int) : Nat × Nat :=
  match p with
  | .ofNat k => (Nat.pow 10 k, 1)
  | .negSucc k => (1, Nat.pow 10 (k + 1))

/-- The point of the grid of multiples of `10 ^ place` nearest to the number, among its two
neighbours there, if any of these rounds to it. -/
def gridPoint? (x : Binary64) (place : Int) : Option Nat :=
  let (lo, hi) := neighbourhood x
  let (un, ud) := scaled 1 (x.exponent - 2)
  let (tn, td) := powerOfTen place
  -- both sides of every comparison are multiplied by `ud * td`
  let value (c : Nat) := c * tn * ud
  let real (q : Nat) := q * un * td
  let inside (c : Nat) :=
    if x.significand % 2 = 0 then real lo ≤ value c ∧ value c ≤ real hi
    else real lo < value c ∧ value c < real hi
  let exact := real (4 * x.significand)
  let c := exact / (tn * ud)
  let down := exact - value c
  let up := value (c + 1) - exact
  if inside c ∧ 0 < c then
    if inside (c + 1) ∧ (up < down ∨ (up = down ∧ c % 2 = 1)) then some (c + 1) else some c
  else if inside (c + 1) then some (c + 1)
  else none

/-- The coarsest grid, of `count` and more digits, with a point that rounds to the number. -/
def shortestFrom (x : Binary64) (first : Int) (count : Nat) : (fuel : Nat) → Nat × Int
  | 0 => (0, 0)
  | fuel + 1 =>
    match gridPoint? x (first - count) with
    | some c => (c, first - count)
    | none => shortestFrom x first (count + 1) fuel

/-- The fewest digits that read back as a number other than zero, and where its point is. -/
def shortest (x : Binary64) : Decimal :=
  let (num, den) := x.magnitude
  let (c, place) := shortestFrom x (firstPlace num den 400) 1 17
  let digits := Nat.toDigits 10 c
  ⟨(digits.reverse.dropWhile (· == '0')).reverse, digits.length + place⟩

end Binary64

end MeshNode
