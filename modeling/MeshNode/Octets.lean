/-!
# Octet strings

Fixed-length octet strings in network order, and the big-endian numbers written in them.
Addresses, keys and message fields are all of this shape; a length that a type fixes is
carried in the type, so that reading a field never needs a bounds check.
-/

namespace MeshNode

/-! ## Big-endian numbers -/

/-- The value of a big-endian octet string. -/
def beValue (bytes : List UInt8) : Nat :=
  bytes.foldl (fun acc b => acc * 256 + b.toNat) 0

/-- The low `width` octets of `value`, most significant first. -/
def beBytes : (width : Nat) → (value : Nat) → List UInt8
  | 0, _ => []
  | width + 1, value => UInt8.ofNat (value / Nat.pow 256 width) :: beBytes width value

theorem length_beBytes (width value : Nat) : (beBytes width value).length = width := by
  induction width with
  | zero => rfl
  | succ width ih => simp [beBytes, ih]

/-- The eight bits of an octet, most significant first. -/
def octetBits (b : UInt8) : List Bool :=
  [7, 6, 5, 4, 3, 2, 1, 0].map b.toNat.testBit

/-! ## Strings of a fixed length -/

/-- A string of exactly `n` octets, in network order. -/
structure Octets (n : Nat) where
  toList : List UInt8
  length_toList : toList.length = n
deriving DecidableEq

namespace Octets

variable {n : Nat}

/-- The octets of a list of the right length. -/
def ofList? (bytes : List UInt8) : Option (Octets n) :=
  if h : bytes.length = n then some ⟨bytes, h⟩ else none

/-- The first `n` octets of a list, filled up with zeros. -/
def padded (n : Nat) (bytes : List UInt8) : Octets n :=
  ⟨bytes.take n ++ List.replicate (n - bytes.length) 0, by simp; omega⟩

/-- The string of `n` zero octets. -/
def zero (n : Nat) : Octets n := padded n []

instance : Inhabited (Octets n) := ⟨zero n⟩

/-- The octet at a position inside the string. -/
def get (o : Octets n) (i : Fin n) : UInt8 :=
  o.toList.get (i.cast o.length_toList.symm)

/-- The string with the octet at position `i` replaced; a position past the end changes nothing. -/
def set (o : Octets n) (i : Nat) (b : UInt8) : Octets n :=
  ⟨o.toList.set i b, by simp [o.length_toList]⟩

/-- The string with some octets put over it from a position on, if it has room for all of them. -/
def copyAt? (o : Octets n) (start : Nat) (bytes : List UInt8) : Option (Octets n) :=
  if h : start + bytes.length ≤ n then
    some ⟨o.toList.take start ++ bytes ++ o.toList.drop (start + bytes.length), by
      simp [o.length_toList]
      omega⟩
  else none

/-- The bits of the string, most significant first. -/
def bits (o : Octets n) : List Bool :=
  o.toList.flatMap octetBits

/-- The string with every bit flipped. -/
def complement (o : Octets n) : Octets n :=
  ⟨o.toList.map (~~~ ·), by simp [o.length_toList]⟩

theorem ext_toList {a b : Octets n} (h : a.toList = b.toList) : a = b := by
  cases a; cases b; cases h; rfl

theorem isSome_copyAt? (o : Octets n) {start : Nat} {bytes : List UInt8}
    (h : start + bytes.length ≤ n) : (o.copyAt? start bytes).isSome := by
  rw [copyAt?, dif_pos h]
  rfl

theorem ofList?_toList (o : Octets n) : ofList? (n := n) o.toList = some o := by
  simp [ofList?, o.length_toList]

theorem padded_toList (o : Octets n) : padded n o.toList = o := by
  apply ext_toList
  have h := o.length_toList
  simp only [padded, h, Nat.sub_self, List.replicate_zero, List.append_nil]
  exact List.take_of_length_le (Nat.le_of_eq h)

end Octets

/-- An IPv4 address. -/
abbrev Ipv4 := Octets 4

/-- An IPv6 address. -/
abbrev Ipv6 := Octets 16

/-- An Ethernet hardware address. -/
abbrev HwAddr := Octets 6

/-- A node's public key. -/
abbrev NodeKey := Octets 32

end MeshNode
