import MeshNode.Octets
import Mathlib.Data.List.Induction
import Mathlib.Tactic.Ring

/-!
# Laws of octet strings

* **numbers** — `beValue_beBytes`: a number written in a field of `width`
  octets is read back up to `256 ^ width`; `beValue_lt`: a field holds nothing
  larger;
* **cutting** — `Octets.exists_append` and `Octets.exists_flatMap` take strings
  of a fixed length off the front of a longer one, which is how every layout of
  a message is recovered from its length alone;
* **taking whole** — `Octets.ofList?_eq_some_iff`: a list is taken for the string that it is;
* **padding and copying** — `Octets.toList_padded`: what `Octets.padded` fills up;
  `Octets.toList_of_copyAt?`: what `Octets.copyAt?` leaves standing.
-/

namespace MeshNode

/-! ## Big-endian numbers -/

theorem beValue_append_singleton (bytes : List UInt8) (b : UInt8) :
    beValue (bytes ++ [b]) = beValue bytes * 256 + b.toNat := by
  simp [beValue, List.foldl_append]

/-- The first octet weighs as much as the octets after it can count. -/
theorem beValue_cons (b : UInt8) (bytes : List UInt8) :
    beValue (b :: bytes) = b.toNat * 256 ^ bytes.length + beValue bytes := by
  -- the value is summed from the left, so the step takes off the last octet
  induction bytes using List.reverseRecOn with
  | nil => simp [beValue]
  | append_singleton front last ih =>
    rw [← List.cons_append, beValue_append_singleton, beValue_append_singleton, ih,
      List.length_append, List.length_singleton]
    ring

theorem beValue_lt (bytes : List UInt8) : beValue bytes < 256 ^ bytes.length := by
  induction bytes with
  | nil => simp [beValue]
  | cons b bytes ih =>
    have hb : b.toNat + 1 ≤ 256 := b.toNat_lt
    have hstep : (b.toNat + 1) * 256 ^ bytes.length ≤ 256 * 256 ^ bytes.length :=
      Nat.mul_le_mul_right _ hb
    rw [beValue_cons, List.length_cons, Nat.pow_succ]
    rw [Nat.add_mul] at hstep
    omega

/-- A number is read back up to what its field can hold. -/
theorem beValue_beBytes (width value : Nat) :
    beValue (beBytes width value) = value % 256 ^ width := by
  induction width with
  | zero => simp [beBytes, beValue, Nat.mod_one]
  | succ width ih =>
    have htop : (UInt8.ofNat (value / Nat.pow 256 width)).toNat = value / 256 ^ width % 256 :=
      UInt8.toNat_ofNat'
    rw [beBytes, beValue_cons, length_beBytes, ih, htop]
    rw [Nat.pow_succ, Nat.mod_mul, Nat.mul_comm (256 ^ width), Nat.add_comm]

theorem beValue_beBytes_of_lt {width value : Nat} (h : value < 256 ^ width) :
    beValue (beBytes width value) = value := by
  rw [beValue_beBytes, Nat.mod_eq_of_lt h]

/-! ## Cutting and padding -/

theorem le_length_append {n : Nat} {front : List UInt8} (h : front.length = n)
    (rest : List UInt8) : n ≤ (front ++ rest).length := by
  rw [List.length_append, h]
  exact Nat.le_add_right n _

namespace Octets

variable {n : Nat}

/-- A string that is long enough begins with `n` octets. -/
theorem exists_append {bytes : List UInt8} (h : n ≤ bytes.length) :
    ∃ (o : Octets n) (rest : List UInt8), bytes = o.toList ++ rest := by
  refine ⟨⟨bytes.take n, ?_⟩, bytes.drop n, ?_⟩
  · rw [List.length_take, Nat.min_eq_left h]
  · exact (List.take_append_drop n bytes).symm

theorem exists_toList {bytes : List UInt8} (h : bytes.length = n) :
    ∃ o : Octets n, bytes = o.toList :=
  ⟨⟨bytes, h⟩, rfl⟩

/-- A list is taken for the string whose octets it holds, and for no other. -/
theorem ofList?_eq_some_iff {bytes : List UInt8} {o : Octets n} :
    ofList? bytes = some o ↔ bytes = o.toList := by
  constructor
  · intro h
    rw [ofList?] at h
    split at h
    · cases h
      rfl
    · cases h
  · rintro rfl
    exact ofList?_toList o

theorem length_flatMap (os : List (Octets n)) :
    (os.flatMap (·.toList)).length = n * os.length := by
  induction os with
  | nil => simp
  | cons o os ih =>
    rw [List.flatMap_cons, List.length_append, o.length_toList, ih, List.length_cons,
      Nat.mul_succ, Nat.add_comm]

/-- A string of `n * count` octets is a row of `count` strings of `n`. -/
theorem exists_flatMap {count : Nat} {bytes : List UInt8} (h : bytes.length = n * count) :
    ∃ os : List (Octets n), os.length = count ∧ bytes = os.flatMap (·.toList) := by
  induction count generalizing bytes with
  | zero =>
    have hnil : bytes = [] := List.eq_nil_of_length_eq_zero (by simpa using h)
    exact ⟨[], rfl, hnil⟩
  | succ count ih =>
    rw [Nat.mul_succ] at h
    obtain ⟨o, rest, rfl⟩ := exists_append (show n ≤ bytes.length by omega)
    rw [List.length_append, o.length_toList] at h
    obtain ⟨os, hlen, rfl⟩ := ih (show rest.length = n * count by omega)
    exact ⟨o :: os, by rw [List.length_cons, hlen], rfl⟩

/-- A cut past a string of fixed length goes on in what follows it. -/
theorem drop_append_of_le (o : Octets n) (rest : List UInt8) {i : Nat} (h : n ≤ i) :
    (o.toList ++ rest).drop i = rest.drop (i - n) := by
  have hlen : o.toList.length ≤ i := by rw [o.length_toList]; exact h
  rw [List.drop_append, List.drop_eq_nil_of_le hlen, List.nil_append, o.length_toList]

theorem getElem?_toList (o : Octets n) (i : Fin n) : o.toList[i.val]? = some (o.get i) := by
  rw [List.getElem?_eq_getElem (by rw [o.length_toList]; exact i.isLt)]
  rfl

/-- What was put over a string stands between what is left of it. -/
theorem toList_of_copyAt? {o r : Octets n} {start : Nat} {bytes : List UInt8}
    (h : o.copyAt? start bytes = some r) :
    r.toList = o.toList.take start ++ bytes ++ o.toList.drop (start + bytes.length) := by
  rw [copyAt?] at h
  split at h
  · cases h
    rfl
  · cases h

/-- Padding fills up what is too short. -/
theorem toList_padded {bytes : List UInt8} (h : bytes.length ≤ n) :
    (padded n bytes).toList = bytes ++ List.replicate (n - bytes.length) 0 := by
  simp only [padded, List.take_of_length_le h]

end Octets

end MeshNode
