/-!
# Punycode

The form in which domains write a text of any characters in ASCII alone. Its ASCII characters
come first. The others follow as a row of numbers: each says how many places to go on, from
one place and character to the next, until one is inserted. How many digits a number takes
adapts to those before it.
-/

namespace MeshNode.Text.Punycode

/-! ## Numbers -/

/-- The digit of a value below 36: letters first. -/
def digit (value : Nat) : Char :=
  if value < 26 then Char.ofNat ('a'.toNat + value) else Char.ofNat ('0'.toNat + (value - 26))

/-- The least value with which the digit at a position does not end its number. -/
def threshold (bias position : Nat) : Nat := max 1 (min 26 (position - bias))

theorem threshold_pos (bias position : Nat) : 0 < threshold bias position := by
  unfold threshold; omega

/-- The digits of a number, the lowest first, from a position on. -/
def digits (bias position value : Nat) : List Char :=
  let t := threshold bias position
  if value < t then [digit value]
  else digit (t + (value - t) % (36 - t)) :: digits bias (position + 36) ((value - t) / (36 - t))
termination_by value
decreasing_by
  have := threshold_pos bias position
  exact Nat.lt_of_le_of_lt (Nat.div_le_self _ _) (by omega)

/-- Divides a value by 35 until it is small, and counts 36 for each time. -/
def shrink (value count : Nat) : Nat × Nat :=
  if 455 < value then shrink (value / 35) (count + 36) else (value, count)
termination_by value
decreasing_by exact Nat.div_lt_self (by omega) (by omega)

/-- The bias after a number, of which `placed` characters have been placed by now. -/
def adapted (value placed : Nat) (first : Bool) : Nat :=
  let value := if first then value / 700 else value / 2
  let (value, count) := shrink (value + value / placed) 0
  count + 36 * value / (value + 38)

/-! ## Encoding -/

/-- An encoding under way: the next character to insert, the places passed since the last
number, the bias, how many characters are placed, and the digits so far. -/
structure State where
  code : Nat
  passed : Nat
  bias : Nat
  placed : Nat
  output : List Char

/-- Passes a character of the text, or inserts it if it is the one at hand. -/
def State.visit (basic : Nat) (s : State) (c : Char) : State :=
  if c.toNat < s.code then { s with passed := s.passed + 1 }
  else if c.toNat = s.code then
    { s with
      passed := 0
      bias := adapted s.passed (s.placed + 1) (s.placed == basic)
      placed := s.placed + 1
      output := s.output ++ digits s.bias 36 s.passed }
  else s

/-- Inserts a character wherever the text has it. -/
def State.insert (text : List Char) (basic : Nat) (s : State) (c : Char) : State :=
  let s := { s with code := c.toNat, passed := s.passed + (c.toNat - s.code) * (s.placed + 1) }
  let s := text.foldl (State.visit basic) s
  { s with code := c.toNat + 1, passed := s.passed + 1 }

/-- Whether a character is beyond ASCII. -/
def isBeyondAscii (c : Char) : Bool := c.toNat ≥ 0x80

/-- A text in Punycode. -/
def encode (text : List Char) : List Char :=
  let basic := text.filter (! isBeyondAscii ·)
  let others := ((text.filter isBeyondAscii).mergeSort (fun a b => a ≤ b)).eraseDups
  let s := others.foldl (State.insert text basic.length) ⟨0x80, 0, 72, basic.length, []⟩
  basic ++ (if basic.isEmpty then [] else ['-']) ++ s.output

end MeshNode.Text.Punycode
