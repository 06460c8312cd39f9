import MeshNode.Json.Value
import MeshNode.Text.Integer

/-!
# JSON numerals

The written form of a number and its value. Digits are gathered into a significand of 64
bits; those that no longer fit are dropped and only move the point. A numeral without
fraction and exponent whose digits all fit is an integer. Any other is the significand,
rounded, times or divided by a power of ten, rounded again; what exceeds every
floating-point number has no value.
-/

namespace MeshNode

open MeshNode.Text

/-- The written form of a number. -/
structure Numeral where
  negative : Bool
  whole : List Nat
  fraction : Option (List Nat)
  exponent : Option (Bool × List Nat)

namespace Numeral

/-! ## Scanning -/

/-- The digits a text begins with, and what follows them. -/
def digits : List Char → List Nat × List Char
  | [] => ([], [])
  | c :: rest =>
    match decimalDigit? c with
    | some d => let (ds, tail) := digits rest; (d :: ds, tail)
    | none => ([], c :: rest)

/-- The whole part: a single zero, or digits of which the first is none. -/
def whole? (s : List Char) : Option (List Nat × List Char) :=
  match s with
  | '0' :: rest => some ([0], rest)
  | _ =>
    match digits s with
    | ([], _) => none
    | found => some found

/-- The part after a decimal point, if there is one; it has at least one digit. -/
def fraction? (s : List Char) : Option (Option (List Nat) × List Char) :=
  match s with
  | '.' :: rest =>
    match digits rest with
    | ([], _) => none
    | (ds, tail) => some (some ds, tail)
  | _ => some (none, s)

/-- The digits of an exponent; there is at least one. -/
def exponentDigits? (negative : Bool) (s : List Char) :
    Option (Option (Bool × List Nat) × List Char) :=
  match digits s with
  | ([], _) => none
  | (ds, tail) => some (some (negative, ds), tail)

/-- The exponent, if there is one. -/
def exponent? (s : List Char) : Option (Option (Bool × List Nat) × List Char) :=
  match s with
  | c :: rest =>
    if c = 'e' ∨ c = 'E' then
      match rest with
      | '+' :: tail => exponentDigits? false tail
      | '-' :: tail => exponentDigits? true tail
      | _ => exponentDigits? false rest
    else some (none, s)
  | [] => some (none, s)

/-- The numeral a text begins with, and what follows it. -/
def scan? (s : List Char) : Option (Numeral × List Char) := do
  let (negative, s) := match s with
    | '-' :: rest => (true, rest)
    | _ => (false, s)
  let (whole, s) ← whole? s
  let (fraction, s) ← fraction? s
  let (exponent, s) ← exponent? s
  return (⟨negative, whole, fraction, exponent⟩, s)

/-! ## Value -/

/-- One more than the greatest significand. -/
def significandBound : Nat := 0x10000000000000000

/-- Gathers the digits of the whole part; the second number counts those dropped. -/
def gatherWhole : (significand dropped : Nat) → List Nat → Nat × Nat
  | m, dropped, [] => (m, dropped)
  | m, 0, d :: rest =>
    if m * 10 + d < significandBound then gatherWhole (m * 10 + d) 0 rest
    else gatherWhole m 1 rest
  | m, dropped + 1, _ :: rest => gatherWhole m (dropped + 2) rest

/-- Gathers the digits of the fraction up to the first that does not fit; the second number
counts those taken. -/
def gatherFraction : (significand taken : Nat) → List Nat → Nat × Nat
  | m, taken, [] => (m, taken)
  | m, taken, d :: rest =>
    if m * 10 + d < significandBound then gatherFraction (m * 10 + d) (taken + 1) rest
    else (m, taken)

/-- The value of an exponent, if it has at most 31 bits. -/
def exponentValue? (ds : List Nat) : Option Nat :=
  ds.foldlM (fun acc d => if acc * 10 + d < 0x80000000 then some (acc * 10 + d) else none) 0

/-- The greatest exponent of ten in one step of scaling. -/
def tenStep : Nat := 308

/-- A power of ten, rounded. -/
def power? (k : Nat) : Option Binary64 := Binary64.ofFraction? false (Nat.pow 10 k) 1

/-- A number divided by a power of ten, in steps that each round. -/
def divideByTen? (x : Binary64) (k : Nat) : Option Binary64 :=
  if k ≤ tenStep then do x.div? (← power? k)
  else if x.isZero then some x
  else do
    let y ← x.div? (← power? tenStep)
    divideByTen? y (k - tenStep)
termination_by k
decreasing_by simp only [tenStep] at *; omega

/-- A significand times a power of ten, if the result is finite. -/
def scaleByTen? (significand : Nat) (exponent : Int) : Option Binary64 := do
  let x ← Binary64.ofFraction? false significand 1
  match exponent with
  | .ofNat k =>
    if k ≤ tenStep then x.mul? (← power? k)
    else if x.isZero then some x
    else none
  | .negSucc k => divideByTen? x (k + 1)

/-- The magnitude of a numeral with a fraction, an exponent or dropped digits. -/
def magnitude? (n : Numeral) : Option Binary64 := do
  let (m, dropped) := gatherWhole 0 0 n.whole
  let (m, taken) := gatherFraction m 0 (n.fraction.getD [])
  let start : Int := (dropped : Int) - (taken : Int)
  match n.exponent with
  | none => scaleByTen? m start
  | some (negative, ds) =>
    match exponentValue? ds with
    | some e => scaleByTen? m (if negative then start - e else start + e)
    | none => if m ≠ 0 ∧ !negative then none else scaleByTen? 0 0

/-- The number a numeral stands for. A negative integer below the least of 64 bits, and
minus zero, are floating-point numbers. -/
def value? (n : Numeral) : Option JsonNumber :=
  let floating := n.magnitude?.map fun x => JsonNumber.float { x with negative := n.negative }
  match n.fraction, n.exponent, gatherWhole 0 0 n.whole with
  | none, none, (m, 0) =>
    if !n.negative then some (.int m)
    else if m = 0 ∨ m > 0x8000000000000000 then floating
    else some (.int (-m))
  | _, _, _ => floating

end Numeral

end MeshNode
