import Mathlib.Data.List.Induction
import Mathlib.Data.Nat.Bitwise
import Mathlib.Tactic.IntervalCases
import MeshNode.Octets

/-!
# Octets and their bits

A string of octets is a row of bits, eight to each octet and the most significant first.

* **one octet** — `octetBits_octetOfBits` and `octetOfBits_octetBits`: eight bits and an octet
  are the same thing; `octetOfBits_concat`: a shift register takes in one more bit;
* **rows** — what is cut off a row of octets is cut off its bits (`take_flatMap_octetBits`,
  `drop_flatMap_octetBits`), and the bits determine the octets (`flatMap_octetBits_inj`);
* **strings** — `Octets.bits_complement`: the complement flips every bit;
* **leading ones** — `leadingOnes_append_of_lt`, `leadingOnes_append_of_all` and
  `leadingOnes_take`: how the count goes on, and what a cut leaves of it; `window_eq_iff`: two
  rows agree on the count and on a window behind it when they have a long enough front in common.
-/

namespace MeshNode

/-! ## One octet -/

@[simp] theorem length_octetBits (b : UInt8) : (octetBits b).length = 8 := rfl

theorem getElem?_octetBits (b : UInt8) {i : Nat} (h : i < 8) :
    (octetBits b)[i]? = some (b.toNat.testBit (7 - i)) := by
  interval_cases i <;> rfl

/-- The number that a row of bits spells, the last bit being the lowest. -/
def bitsValue (bits : List Bool) : Nat := bits.foldl (fun acc b => acc * 2 + b.toNat) 0

/-- The octet that eight bits spell, the most significant first. -/
def octetOfBits (bits : List Bool) : UInt8 := UInt8.ofNat (bitsValue bits)

theorem bitsValue_concat (bits : List Bool) (b : Bool) :
    bitsValue (bits ++ [b]) = bitsValue bits * 2 + b.toNat := by
  rw [bitsValue, List.foldl_append]
  rfl

theorem toNat_octetOfBits (bits : List Bool) :
    (octetOfBits bits).toNat = bitsValue bits % 256 :=
  UInt8.toNat_ofNat'

theorem testBit_bitsValue (bits : List Bool) (i : Nat) :
    (bitsValue bits).testBit i = bits.reverse.getD i false := by
  induction bits using List.reverseRecOn generalizing i with
  | nil => simp [bitsValue]
  | append_singleton bits b ih =>
    rw [bitsValue_concat, List.reverse_append]
    cases i with
    | zero => cases b <;> simp [Nat.testBit_zero]
    | succ i =>
      have hlow : b.toNat ≤ 1 := b.toNat_le
      have hhalf : (bitsValue bits * 2 + b.toNat) / 2 = bitsValue bits := by omega
      rw [Nat.testBit_succ, hhalf, ih]
      rfl

theorem testBit_octetOfBits (bits : List Bool) {i : Nat} (h : i < 8) :
    (octetOfBits bits).toNat.testBit i = bits.reverse.getD i false := by
  rw [toNat_octetOfBits, show 256 = 2 ^ 8 from rfl, Nat.testBit_mod_two_pow, testBit_bitsValue,
    decide_eq_true h, Bool.true_and]

/-- Eight bits are the bits of their octet. -/
theorem octetBits_octetOfBits {bits : List Bool} (h : bits.length = 8) :
    octetBits (octetOfBits bits) = bits := by
  apply List.ext_getElem?
  intro i
  by_cases hi : i < 8
  · have hback : bits.length - 1 - (7 - i) = i := by omega
    rw [getElem?_octetBits _ hi, testBit_octetOfBits bits (by omega), List.getD_eq_getElem?_getD,
      List.getElem?_reverse (by omega), hback, List.getElem?_eq_getElem (by omega),
      Option.getD_some]
  · rw [List.getElem?_eq_none (by simp; omega), List.getElem?_eq_none (by omega)]

theorem octetBits_inj {a b : UInt8} : octetBits a = octetBits b ↔ a = b := by
  refine ⟨fun h => ?_, congrArg octetBits⟩
  apply UInt8.toNat_inj.mp
  apply Nat.eq_of_testBit_eq
  intro i
  by_cases hi : i < 8
  · have hplace : 7 - (7 - i) = i := by omega
    have hbit := congrArg (·[7 - i]?) h
    simp only [getElem?_octetBits _ (show 7 - i < 8 by omega), hplace] at hbit
    exact Option.some.inj hbit
  · -- an octet has no bits further up
    have hhigh : 2 ^ 8 ≤ 2 ^ i := Nat.pow_le_pow_right (by omega) (by omega)
    have hsmall : ∀ c : UInt8, c.toNat.testBit i = false := fun c =>
      Nat.testBit_lt_two_pow (Nat.lt_of_lt_of_le c.toNat_lt hhigh)
    rw [hsmall, hsmall]

/-- An octet is the octet of its bits. -/
theorem octetOfBits_octetBits (b : UInt8) : octetOfBits (octetBits b) = b :=
  octetBits_inj.mp (octetBits_octetOfBits (length_octetBits b))

theorem octetBits_complement (b : UInt8) : octetBits (~~~b) = (octetBits b).map (!·) := by
  have hflip : ∀ i < 8, (~~~b).toNat.testBit i = !b.toNat.testBit i := by
    intro i hi
    rw [UInt8.toNat_not, show UInt8.size - 1 - b.toNat = 2 ^ 8 - (b.toNat + 1) by simp,
      Nat.testBit_two_pow_sub_succ b.toNat_lt, decide_eq_true hi, Bool.true_and]
  apply List.ext_getElem?
  intro i
  by_cases hi : i < 8
  · rw [List.getElem?_map, getElem?_octetBits _ hi, getElem?_octetBits _ hi, hflip _ (by omega)]
    rfl
  · rw [List.getElem?_eq_none (by simp; omega), List.getElem?_eq_none (by simp; omega)]

theorem shiftLeft_or_bit (n : Nat) (b : Bool) : n <<< 1 ||| b.toNat = n * 2 + b.toNat := by
  have hlow : b.toNat < 2 ^ 1 := b.toNat_lt
  rw [← Nat.shiftLeft_add_eq_or_of_lt hlow, Nat.shiftLeft_eq]

/-- A register takes in a bit from below, and loses its highest one. -/
theorem octetOfBits_concat (bits : List Bool) (b : Bool) :
    octetOfBits (bits ++ [b]) = octetOfBits bits <<< 1 ||| b.toUInt8 := by
  have hbit : b.toUInt8.toNat = b.toNat := by cases b <;> rfl
  have hlow : b.toNat ≤ 1 := b.toNat_le
  have hregister : (octetOfBits bits <<< 1).toNat = (bitsValue bits % 128) <<< 1 := by
    rw [UInt8.toNat_shiftLeft, toNat_octetOfBits]
    simp only [UInt8.reduceToNat, Nat.reduceMod, Nat.shiftLeft_eq]
    omega
  apply UInt8.toNat_inj.mp
  rw [UInt8.toNat_or, hregister, hbit, shiftLeft_or_bit, toNat_octetOfBits, bitsValue_concat]
  omega

/-! ## Rows of octets -/

theorem length_flatMap_octetBits (bytes : List UInt8) :
    (bytes.flatMap octetBits).length = 8 * bytes.length := by
  induction bytes with
  | nil => rfl
  | cons b bytes ih =>
    rw [List.flatMap_cons, List.length_append, length_octetBits, ih, List.length_cons]
    omega

theorem take_flatMap_octetBits (bytes : List UInt8) (n : Nat) :
    (bytes.flatMap octetBits).take (8 * n) = (bytes.take n).flatMap octetBits := by
  induction bytes generalizing n with
  | nil => simp
  | cons b bytes ih =>
    cases n with
    | zero => rfl
    | succ n =>
      rw [List.take_succ_cons, List.flatMap_cons, List.flatMap_cons, List.take_append,
        length_octetBits, show 8 * (n + 1) - 8 = 8 * n by omega, ih,
        List.take_of_length_le (by rw [length_octetBits]; omega)]

theorem drop_flatMap_octetBits (bytes : List UInt8) (n : Nat) :
    (bytes.flatMap octetBits).drop (8 * n) = (bytes.drop n).flatMap octetBits := by
  induction bytes generalizing n with
  | nil => simp
  | cons b bytes ih =>
    cases n with
    | zero => rfl
    | succ n =>
      rw [List.drop_succ_cons, List.flatMap_cons, List.drop_append, length_octetBits,
        show 8 * (n + 1) - 8 = 8 * n by omega, ih,
        List.drop_eq_nil_of_le (by rw [length_octetBits]; omega), List.nil_append]

theorem flatMap_octetBits_inj {as bs : List UInt8} :
    as.flatMap octetBits = bs.flatMap octetBits ↔ as = bs := by
  refine ⟨fun h => ?_, congrArg _⟩
  induction as generalizing bs with
  | nil =>
    have hlen := congrArg List.length h
    rw [length_flatMap_octetBits, length_flatMap_octetBits] at hlen
    exact (List.eq_nil_of_length_eq_zero (by simpa using hlen.symm)).symm
  | cons a as ih =>
    cases bs with
    | nil =>
      have hlen := congrArg List.length h
      simp at hlen
    | cons b bs =>
      rw [List.flatMap_cons, List.flatMap_cons] at h
      obtain ⟨hfirst, hrest⟩ := List.append_inj h rfl
      rw [octetBits_inj.mp hfirst, ih hrest]

/-! ## Strings of a fixed length -/

namespace Octets

variable {n : Nat}

theorem length_bits (o : Octets n) : o.bits.length = 8 * n := by
  rw [bits, length_flatMap_octetBits, o.length_toList]

/-- The complement flips every bit. -/
theorem bits_complement (o : Octets n) : o.complement.bits = o.bits.map (!·) := by
  rw [bits, complement, bits, List.flatMap_map, List.map_flatMap]
  simp only [octetBits_complement]

end Octets

/-! ## Leading ones -/

/-- How many ones a row of bits begins with. -/
def leadingOnes (bits : List Bool) : Nat := (bits.takeWhile id).length

section LeadingOnes

variable {bits : List Bool}

theorem leadingOnes_cons_true (bits : List Bool) :
    leadingOnes (true :: bits) = leadingOnes bits + 1 := rfl

theorem leadingOnes_le (bits : List Bool) : leadingOnes bits ≤ bits.length :=
  (List.takeWhile_sublist id).length_le

/-- A zero ends the count. -/
theorem leadingOnes_append_of_lt (h : leadingOnes bits < bits.length) (more : List Bool) :
    leadingOnes (bits ++ more) = leadingOnes bits := by
  have hzero : ¬ (bits.takeWhile id).length = bits.length := Nat.ne_of_lt h
  rw [leadingOnes, List.takeWhile_append, if_neg hzero, leadingOnes]

/-- As long as there is no zero the count goes on. -/
theorem leadingOnes_append_of_all (h : leadingOnes bits = bits.length) (more : List Bool) :
    leadingOnes (bits ++ more) = bits.length + leadingOnes more := by
  have hall : (bits.takeWhile id).length = bits.length := h
  rw [leadingOnes, List.takeWhile_append, if_pos hall, List.length_append, leadingOnes]

theorem leadingOnes_take (bits : List Bool) (n : Nat) :
    leadingOnes (bits.take n) = min n (leadingOnes bits) := by
  induction bits generalizing n with
  | nil => simp [leadingOnes]
  | cons b bits ih =>
    cases n with
    | zero => simp [leadingOnes]
    | succ n =>
      cases b with
      | false => simp [leadingOnes]
      | true =>
        rw [List.take_succ_cons, leadingOnes_cons_true, leadingOnes_cons_true, ih]
        omega

/-- A row begins with its leading ones and the zero that ends them. -/
theorem take_leadingOnes_succ (h : leadingOnes bits < bits.length) :
    bits.take (leadingOnes bits + 1) = List.replicate (leadingOnes bits) true ++ [false] := by
  induction bits with
  | nil => simp at h
  | cons b bits ih =>
    cases b with
    | false => rfl
    | true =>
      rw [leadingOnes_cons_true] at h ⊢
      rw [List.take_succ_cons, ih (by simpa using h), List.replicate_succ, List.cons_append]

/-- Two rows have the same count, and the same bits in a window behind the zero, exactly when
they are the same up to the end of the window. -/
theorem window_eq_iff {as bs : List Bool} (hlen : as.length = bs.length) {k : Nat}
    (h : leadingOnes as + 1 + k ≤ as.length) :
    leadingOnes as = leadingOnes bs ∧
        (as.drop (leadingOnes as + 1)).take k = (bs.drop (leadingOnes bs + 1)).take k ↔
      as.take (leadingOnes as + 1 + k) = bs.take (leadingOnes as + 1 + k) := by
  constructor
  · rintro ⟨hcount, hwindow⟩
    have hcut : ∀ l : List Bool, l.take (leadingOnes as + 1 + k) =
        l.take (leadingOnes as + 1) ++ (l.drop (leadingOnes as + 1)).take k :=
      fun _ => List.take_add
    have hfront : as.take (leadingOnes as + 1) = bs.take (leadingOnes bs + 1) := by
      rw [take_leadingOnes_succ (by omega), take_leadingOnes_succ (by omega), hcount]
    rw [hcut as, hfront, hwindow, ← hcount, ← hcut bs]
  · intro htake
    -- the cut is behind the first zero, so both rows have their count in front of it
    have hcounts := congrArg leadingOnes htake
    rw [leadingOnes_take, leadingOnes_take] at hcounts
    have hcount : leadingOnes as = leadingOnes bs := by omega
    have hwindow := congrArg (List.drop (leadingOnes as + 1)) htake
    rw [List.drop_take, List.drop_take, Nat.add_sub_cancel_left] at hwindow
    rw [← hcount]
    exact ⟨rfl, hwindow⟩

end LeadingOnes

end MeshNode
