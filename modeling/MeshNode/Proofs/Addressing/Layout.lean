import MeshNode.Addressing
import MeshNode.Proofs.Bits
import MeshNode.Proofs.Octets

/-!
# The layout of node addresses

Of the complement of a key, the number of leading ones is in the second octet of the address,
and the bits behind the zero that ends them fill the rest, as long as they fill whole octets.

* **the scan** — `BitScan.Gathered` says what a scan holds of the bits it has read;
  `BitScan.Gathered.read` is one bit, `BitScan.gathered_ofBits` a whole row;
* **the octets behind the count** — `BitScan.Gathered.getElem?_tail` says which slices they are,
  `getElem?_addressTail` what stands where none is left;
* **the address** — `toList_nodeAddress`, and from it `nodeAddress_layout`.
-/

namespace MeshNode

/-! ## The scan -/

namespace BitScan

variable {s : BitScan} {bits : List Bool}

/-- What a scan holds of the bits it has read: the count of the leading ones, and whether a
zero has ended it; of the bits behind that zero, the octets they fill and what is left over. -/
structure Gathered (s : BitScan) (bits : List Bool) : Prop where
  ones : s.ones = UInt8.ofNat (leadingOnes bits)
  pastZero : s.pastZero = decide (leadingOnes bits < bits.length)
  held_lt : s.held < 8
  exists_part : ∃ part : List Bool,
    bits.drop (leadingOnes bits + 1) = s.tail.flatMap octetBits ++ part ∧
      part.length = s.held ∧ s.register = octetOfBits part

theorem gathered_nil : Gathered {} [] where
  ones := rfl
  pastZero := rfl
  held_lt := by decide
  exists_part := ⟨[], rfl, rfl, rfl⟩

/-- As long as all bits are ones, nothing but their count is kept. -/
theorem Gathered.eq_of_all (h : s.Gathered bits) (hall : leadingOnes bits = bits.length) :
    s = { ones := UInt8.ofNat bits.length } := by
  obtain ⟨part, hpart, hheld, hregister⟩ := h.exists_part
  rw [hall, List.drop_eq_nil_of_le (Nat.le_succ _)] at hpart
  obtain ⟨htail, rfl⟩ := List.append_eq_nil_iff.mp hpart.symm
  have hempty : s.tail = [] := flatMap_octetBits_inj.mp htail
  have hpast : s.pastZero = false := by
    rw [h.pastZero, hall]
    exact decide_eq_false (Nat.lt_irrefl _)
  calc s = ⟨s.ones, s.pastZero, s.register, s.held, s.tail⟩ := rfl
    _ = { ones := UInt8.ofNat bits.length } := by
      rw [h.ones, hall, hpast, hregister, ← hheld, hempty]
      rfl

/-- Before the first zero, a one goes on with the count and a zero ends it. -/
theorem Gathered.read_of_all (h : s.Gathered bits) (hall : leadingOnes bits = bits.length)
    (b : Bool) : (s.read b).Gathered (bits ++ [b]) := by
  have hcount : leadingOnes (bits ++ [b]) = bits.length + b.toNat := by
    rw [leadingOnes_append_of_all hall]
    cases b <;> rfl
  have hread : s.read b =
      { ones := UInt8.ofNat (bits.length + b.toNat), pastZero := !b } := by
    rw [h.eq_of_all hall]
    cases b with
    | true => simp [BitScan.read]
    | false => rfl
  rw [hread]
  refine ⟨?_, ?_, Nat.succ_pos 7, [], ?_, rfl, rfl⟩
  · rw [hcount]
  · rw [hcount]
    cases b <;> simp
  · rw [hcount, List.drop_eq_nil_of_le (by simp)]
    rfl

/-- A bit behind the zero goes into the register, or fills its octet. -/
theorem Gathered.read_of_lt (h : s.Gathered bits) (hlt : leadingOnes bits < bits.length)
    (b : Bool) : (s.read b).Gathered (bits ++ [b]) := by
  have hpast : s.pastZero = true := by rw [h.pastZero, decide_eq_true hlt]
  have hcount := leadingOnes_append_of_lt hlt [b]
  have hlonger : leadingOnes bits < (bits ++ [b]).length := by
    rw [List.length_append]
    omega
  obtain ⟨part, hpart, hheld, hregister⟩ := h.exists_part
  have hdrop : (bits ++ [b]).drop (leadingOnes bits + 1) =
      s.tail.flatMap octetBits ++ (part ++ [b]) := by
    rw [List.drop_append_of_le_length hlt, hpart, List.append_assoc]
  have hshifted : s.register <<< 1 ||| b.toUInt8 = octetOfBits (part ++ [b]) := by
    rw [octetOfBits_concat, hregister]
  by_cases hfull : s.held + 1 = 8
  · have hread : s.read b =
        { s with register := 0, held := 0, tail := s.tail ++ [octetOfBits (part ++ [b])] } := by
      rw [read, if_pos hpast, if_pos hfull, hshifted]
    have hoctet : octetBits (octetOfBits (part ++ [b])) = part ++ [b] := by
      apply octetBits_octetOfBits
      rw [List.length_append, hheld]
      exact hfull
    rw [hread]
    refine ⟨?_, ?_, Nat.succ_pos 7, [], ?_, rfl, rfl⟩
    · rw [hcount]
      exact h.ones
    · rw [hcount, decide_eq_true hlonger]
      exact hpast
    · rw [hcount, hdrop, List.flatMap_append, List.flatMap_singleton, hoctet, List.append_nil]
  · have hread : s.read b =
        { s with register := octetOfBits (part ++ [b]), held := s.held + 1 } := by
      rw [read, if_pos hpast, if_neg hfull, hshifted]
    have hroom := h.held_lt
    rw [hread]
    refine ⟨?_, ?_, ?_, part ++ [b], ?_, ?_, rfl⟩
    · rw [hcount]
      exact h.ones
    · rw [hcount, decide_eq_true hlonger]
      exact hpast
    · show s.held + 1 < 8
      omega
    · rw [hcount, hdrop]
    · rw [List.length_append, hheld]
      rfl

/-- One bit: whatever was gathered before, the bit is gathered with it. -/
theorem Gathered.read (h : s.Gathered bits) (b : Bool) : (s.read b).Gathered (bits ++ [b]) := by
  rcases Nat.lt_or_eq_of_le (leadingOnes_le bits) with hlt | hall
  · exact h.read_of_lt hlt b
  · exact h.read_of_all hall b

theorem gathered_ofBits (bits : List Bool) : (ofBits bits).Gathered bits := by
  induction bits using List.reverseRecOn with
  | nil => exact gathered_nil
  | append_singleton bits b ih =>
    rw [ofBits, List.foldl_append]
    exact ih.read b

/-- The octets of the tail are the slices of eight bits behind the first zero, as far as all
eight are there. -/
theorem Gathered.getElem?_tail (h : s.Gathered bits) (j : Nat) :
    s.tail[j]? =
      if leadingOnes bits + 8 + 8 * j < bits.length then
        some (octetOfBits ((bits.drop (leadingOnes bits + 1 + 8 * j)).take 8))
      else none := by
  obtain ⟨part, hpart, hheld, -⟩ := h.exists_part
  have hroom := h.held_lt
  have hlen := congrArg List.length hpart
  rw [List.length_drop, List.length_append, length_flatMap_octetBits, hheld] at hlen
  by_cases hj : j < s.tail.length
  · have hcut : (s.tail.flatMap octetBits).drop (8 * j) =
        octetBits s.tail[j] ++ (s.tail.drop (j + 1)).flatMap octetBits := by
      rw [drop_flatMap_octetBits, List.drop_eq_getElem_cons hj, List.flatMap_cons]
    have hslice : (bits.drop (leadingOnes bits + 1 + 8 * j)).take 8 = octetBits s.tail[j] := by
      rw [← List.drop_drop, hpart, List.drop_append_of_le_length
        (by rw [length_flatMap_octetBits]; omega), hcut, List.append_assoc]
      exact List.take_left' (length_octetBits _)
    rw [if_pos (by omega), hslice, octetOfBits_octetBits, List.getElem?_eq_getElem hj]
  · rw [if_neg (by omega), List.getElem?_eq_none (by omega)]

end BitScan

/-! ## The address -/

/-- The octets behind the count: those of the scan, as many as fit. -/
def addressTail (key : NodeKey) : List UInt8 :=
  (BitScan.ofBits key.complement.bits).tail.take 14

theorem length_addressTail_le (key : NodeKey) : (addressTail key).length ≤ 14 :=
  List.length_take_le 14 _

/-- The copy is never past the end of the address. -/
theorem nodeAddress?_eq (key : NodeKey) : nodeAddress? key = some (nodeAddress key) :=
  (Option.some_get _).symm

theorem toList_nodeAddress (key : NodeKey) :
    (nodeAddress key).toList =
      nodeOctet :: UInt8.ofNat (leadingOnes key.complement.bits) ::
        (addressTail key ++ List.replicate (14 - (addressTail key).length) 0) := by
  have hones := (BitScan.gathered_ofBits key.complement.bits).ones
  rw [Octets.toList_of_copyAt? (nodeAddress?_eq key), hones]
  have hfront : (((Octets.zero 16).set 0 nodeOctet).set 1
      (UInt8.ofNat (leadingOnes key.complement.bits))).toList =
        nodeOctet :: UInt8.ofNat (leadingOnes key.complement.bits) :: List.replicate 14 0 := rfl
  rw [hfront, Nat.add_comm, List.drop_succ_cons, List.drop_succ_cons, List.drop_replicate]
  rfl

/-- Where the scan has no octet left, the address stays zero. -/
theorem getElem?_addressTail (key : NodeKey) {j : Nat} (hj : j < 14) :
    (addressTail key ++ List.replicate (14 - (addressTail key).length) 0)[j]? =
      some ((BitScan.ofBits key.complement.bits).tail[j]?.getD 0) := by
  have hkept : (addressTail key)[j]? = (BitScan.ofBits key.complement.bits).tail[j]? := by
    rw [addressTail, List.getElem?_take, if_pos hj]
  rw [← hkept]
  by_cases hin : j < (addressTail key).length
  · rw [List.getElem?_append_left hin, List.getElem?_eq_getElem hin, Option.getD_some]
  · rw [List.getElem?_append_right (by omega), List.getElem?_replicate, if_pos (by omega),
      List.getElem?_eq_none (by omega), Option.getD_none]

/-- **The address of a key.** Of the complement of the key, the number of leading ones stands
modulo 256 in the second octet, and behind it the slices of eight bits that follow the first
zero; where fewer than eight bits are left the octet is zero. The copy of the slices is never
past the end of the address. -/
theorem nodeAddress_layout (key : NodeKey) :
    let inv := key.complement.bits
    let m := leadingOnes inv
    inv = key.bits.map (!·) ∧ inv.length = 256 ∧ m ≤ 256 ∧
      nodeAddress? key = some (nodeAddress key) ∧
      (nodeAddress key).toList = 0x02 :: UInt8.ofNat (m % 256) :: (List.range 14).map fun j =>
        if m + 8 + 8 * j < 256 then octetOfBits ((inv.drop (m + 1 + 8 * j)).take 8) else 0 := by
  intro inv m
  have hlen : inv.length = 256 := key.complement.length_bits
  have hcount : m ≤ 256 := by
    rw [← hlen]
    exact leadingOnes_le inv
  refine ⟨key.bits_complement, hlen, hcount, nodeAddress?_eq key, ?_⟩
  rw [toList_nodeAddress, show UInt8.ofNat (m % 256) = UInt8.ofNat m from UInt8.ofNat_mod_size]
  congr 2
  apply List.ext_getElem?
  intro j
  by_cases hj : j < 14
  · rw [getElem?_addressTail key hj, (BitScan.gathered_ofBits inv).getElem?_tail, hlen,
      List.getElem?_map, List.getElem?_range hj, Option.map_some]
    by_cases hslice : m + 8 + 8 * j < 256
    · rw [if_pos hslice, if_pos hslice, Option.getD_some]
    · rw [if_neg hslice, if_neg hslice, Option.getD_none]
  · have htail := length_addressTail_le key
    rw [List.getElem?_eq_none (by simp; omega), List.getElem?_eq_none (by simp; omega)]

/-- The complement of the zero key is 256 ones, which is one count too many for an octet. -/
example : (nodeAddress (.zero 32)).toList = 0x02 :: List.replicate 15 0 := by decide +kernel

end MeshNode
