import Mathlib.Data.List.Basic
import MeshNode.Proofs.Addressing.Layout

/-!
# Collisions of addresses and subnets

The address of a key shows a window of the key's bits, and where the window begins depends on
the key. Two keys have the same address exactly when they are the same up to the end of the
window of one of them, and the same subnet when they are the same up to the end of a shorter
window.

* **the window** — `flatMap_take_addressTail`: the octets behind the count are bits of the
  complement; `tails_eq_iff`: when two keys show the same ones;
* **addresses and subnets** — `nodeAddress_eq_iff`, `nodeSubnet_eq_iff`;
* **places** — `Subnet.contains_gateway`, `Subnet.gateway_ne_network` and
  `contains_nodeAddress`: what lies in a subnet;
* **all of it** — `collide_iff_shared_front`.
-/

namespace MeshNode

/-- How many zeros a key begins with. -/
def leadingZeros (key : NodeKey) : Nat := (key.bits.takeWhile (!·)).length

/-! ## The window -/

theorem leadingOnes_complement (key : NodeKey) :
    leadingOnes key.complement.bits = leadingZeros key := by
  rw [leadingOnes, key.bits_complement, List.takeWhile_map, List.length_map, leadingZeros]
  rfl

theorem length_tail_ofBits {bits : List Bool} (hlen : bits.length = 256)
    (h : leadingOnes bits ≤ 143) : 14 ≤ (BitScan.ofBits bits).tail.length := by
  have hlast := (BitScan.gathered_ofBits bits).getElem?_tail 13
  rw [hlen, if_pos (by omega)] at hlast
  exact (List.getElem?_eq_some_iff.mp hlast).1

theorem length_addressTail {key : NodeKey} (h : leadingZeros key ≤ 143) :
    (addressTail key).length = 14 := by
  rw [← leadingOnes_complement] at h
  have htail := length_tail_ofBits key.complement.length_bits h
  rw [addressTail, List.length_take, Nat.min_eq_left htail]

/-- The octets behind the count are the bits behind the first zero of the complement. -/
theorem flatMap_take_addressTail {key : NodeKey} (h : leadingZeros key ≤ 143) {n : Nat}
    (hn : n ≤ 14) :
    ((addressTail key).take n).flatMap octetBits =
      (key.complement.bits.drop (leadingZeros key + 1)).take (8 * n) := by
  obtain ⟨part, hpart, -, -⟩ := (BitScan.gathered_ofBits key.complement.bits).exists_part
  rw [leadingOnes_complement] at hpart
  have hlong : 14 ≤ (BitScan.ofBits key.complement.bits).tail.length := by
    rw [← leadingOnes_complement] at h
    exact length_tail_ofBits key.complement.length_bits h
  rw [hpart, List.take_append_of_le_length (by rw [length_flatMap_octetBits]; omega),
    take_flatMap_octetBits, addressTail, List.take_take, Nat.min_eq_left hn]

variable {a b : NodeKey}

/-- Two keys show the same count and the same octets behind it exactly when they agree up to the
end of those octets. -/
theorem tails_eq_iff (ha : leadingZeros a ≤ 143) (hb : leadingZeros b ≤ 143) {n : Nat}
    (hn : n ≤ 14) :
    UInt8.ofNat (leadingZeros a) = UInt8.ofNat (leadingZeros b) ∧
        (addressTail a).take n = (addressTail b).take n ↔
      a.bits.take (leadingZeros a + 1 + 8 * n) = b.bits.take (leadingZeros a + 1 + 8 * n) := by
  have hcount : UInt8.ofNat (leadingZeros a) = UInt8.ofNat (leadingZeros b) ↔
      leadingZeros a = leadingZeros b := by
    rw [← UInt8.toNat_inj, UInt8.toNat_ofNat_of_lt' (show leadingZeros a < 256 by omega),
      UInt8.toNat_ofNat_of_lt' (show leadingZeros b < 256 by omega)]
  have hlen : a.complement.bits.length = b.complement.bits.length := by
    rw [Octets.length_bits, Octets.length_bits]
  have hroom : leadingOnes a.complement.bits + 1 + 8 * n ≤ a.complement.bits.length := by
    rw [Octets.length_bits, leadingOnes_complement]
    omega
  have hwindow := window_eq_iff hlen hroom
  rw [leadingOnes_complement, leadingOnes_complement] at hwindow
  have hflip : ∀ key : NodeKey, ∀ k, key.complement.bits.take k = (key.bits.take k).map (!·) := by
    intro key k
    rw [key.bits_complement, List.map_take]
  have hinj : Function.Injective (List.map (!·)) :=
    List.map_injective_iff.mpr fun x y h => by simpa using h
  rw [hcount, ← flatMap_octetBits_inj, flatMap_take_addressTail ha hn,
    flatMap_take_addressTail hb hn, hwindow, hflip, hflip, hinj.eq_iff]

/-! ## Addresses and subnets -/

theorem nodeAddress_eq_iff (ha : leadingZeros a ≤ 143) (hb : leadingZeros b ≤ 143) :
    nodeAddress a = nodeAddress b ↔
      a.bits.take (leadingZeros a + 113) = b.bits.take (leadingZeros a + 113) := by
  have hlist : ∀ {key : NodeKey}, leadingZeros key ≤ 143 → (nodeAddress key).toList =
      nodeOctet :: UInt8.ofNat (leadingZeros key) :: (addressTail key).take 14 := by
    intro key h
    have hlen := length_addressTail h
    rw [toList_nodeAddress, leadingOnes_complement, hlen, List.take_of_length_le (by omega)]
    simp
  have hoctets : nodeAddress a = nodeAddress b ↔
      (nodeAddress a).toList = (nodeAddress b).toList := ⟨congrArg _, Octets.ext_toList⟩
  rw [hoctets, hlist ha, hlist hb, List.cons_inj_right, List.cons.injEq,
    tails_eq_iff ha hb (Nat.le_refl 14)]

theorem Subnet.toList_inj {s t : Subnet} : s.octets.toList = t.octets.toList ↔ s = t := by
  refine ⟨fun h => ?_, fun h => by rw [h]⟩
  cases s
  cases t
  exact congrArg Subnet.mk (Octets.ext_toList h)

/-- A subnet is the front of the address, with one more bit set in its first octet. -/
theorem toList_nodeSubnet (key : NodeKey) :
    (nodeSubnet key).octets.toList = 0x03 :: ((nodeAddress key).toList.drop 1).take 7 := by
  have hfront : (Octets.padded 8 (nodeAddress key).toList).toList =
      nodeOctet :: ((nodeAddress key).toList.drop 1).take 7 := by
    show (nodeAddress key).toList.take 8 ++
      List.replicate (8 - (nodeAddress key).toList.length) 0 = _
    rw [(nodeAddress key).length_toList, toList_nodeAddress]
    simp
  have hfirst : (Octets.padded 8 (nodeAddress key).toList).get 0 = nodeOctet := by
    have hget := (Octets.padded 8 (nodeAddress key).toList).getElem?_toList 0
    rw [hfront] at hget
    exact (Option.some.inj hget).symm
  show (Octets.padded 8 (nodeAddress key).toList).toList.set 0 _ = _
  rw [hfirst, hfront]
  rfl

theorem nodeSubnet_eq_iff (ha : leadingZeros a ≤ 143) (hb : leadingZeros b ≤ 143) :
    nodeSubnet a = nodeSubnet b ↔
      a.bits.take (leadingZeros a + 49) = b.bits.take (leadingZeros a + 49) := by
  have hlist : ∀ {key : NodeKey}, leadingZeros key ≤ 143 → (nodeSubnet key).octets.toList =
      0x03 :: UInt8.ofNat (leadingZeros key) :: (addressTail key).take 6 := by
    intro key h
    have hlen := length_addressTail h
    rw [toList_nodeSubnet, toList_nodeAddress, leadingOnes_complement, List.drop_succ_cons,
      List.drop_zero, List.take_succ_cons, List.take_append_of_le_length (by omega)]
  rw [← Subnet.toList_inj, hlist ha, hlist hb, List.cons_inj_right, List.cons.injEq,
    tails_eq_iff ha hb (by omega)]

/-! ## Places -/

theorem Subnet.toList_network (s : Subnet) :
    s.network.toList = s.octets.toList ++ List.replicate 8 0 := by
  rw [network, Octets.toList_padded (by rw [s.octets.length_toList]; omega),
    s.octets.length_toList]

/-- The gateway is a place in the subnet. -/
theorem Subnet.contains_gateway (s : Subnet) : s.contains s.gateway = true := by
  have hfront : s.gateway.toList.take 8 = s.octets.toList := by
    show (s.network.toList.set 15 1).take 8 = _
    rw [List.take_set_of_le (by omega), s.toList_network,
      List.take_left' s.octets.length_toList]
  rw [contains, hfront]
  exact beq_self_eq_true _

theorem Subnet.gateway_ne_network (s : Subnet) : s.gateway ≠ s.network := by
  intro h
  have hlast := congrArg (fun a : Ipv6 => a.toList[15]?) h
  have hlen := s.network.length_toList
  have hgateway : s.gateway.toList[15]? = some 1 := by
    show (s.network.toList.set 15 1)[15]? = _
    rw [List.getElem?_set_self (by omega)]
  have hnetwork : s.network.toList[15]? = some 0 := by
    rw [s.toList_network, List.getElem?_append_right (by rw [s.octets.length_toList]; omega),
      s.octets.length_toList]
    rfl
  simp only [hgateway, hnetwork] at hlast
  exact absurd hlast (by decide)

/-- No node address lies in a routed subnet. -/
theorem contains_nodeAddress (a b : NodeKey) :
    (nodeSubnet b).contains (nodeAddress a) = false := by
  rw [Subnet.contains, toList_nodeSubnet, toList_nodeAddress, List.take_succ_cons]
  rfl

/-! ## All of it -/

/-- **Collisions.** For keys with at most 143 leading zeros, the addresses of two keys are the
same exactly when the keys agree up to the end of the window that the address shows, and their
subnets exactly when they agree up to the end of the subnet's window, which is shorter. No address
lies in a subnet, the other key's or its own; a gateway lies in its subnet and is not its
network. -/
theorem collide_iff_shared_front (a b : NodeKey) :
    (leadingZeros a ≤ 143 → leadingZeros b ≤ 143 →
      (nodeAddress a = nodeAddress b ↔
        a.bits.take (leadingZeros a + 113) = b.bits.take (leadingZeros a + 113)) ∧
      (nodeSubnet a = nodeSubnet b ↔
        a.bits.take (leadingZeros a + 49) = b.bits.take (leadingZeros a + 49)) ∧
      (nodeAddress a = nodeAddress b → nodeSubnet a = nodeSubnet b)) ∧
    (nodeSubnet b).contains (nodeAddress a) = false ∧
    (nodeSubnet a).contains (nodeAddress b) = false ∧
    (nodeSubnet a).contains (nodeSubnet a).gateway = true ∧
    (nodeSubnet a).gateway ≠ (nodeSubnet a).network := by
  refine ⟨fun ha hb => ⟨nodeAddress_eq_iff ha hb, nodeSubnet_eq_iff ha hb, ?_⟩,
    contains_nodeAddress a b, contains_nodeAddress b a, Subnet.contains_gateway _,
    Subnet.gateway_ne_network _⟩
  rw [nodeAddress_eq_iff ha hb, nodeSubnet_eq_iff ha hb]
  intro h
  have hshorter := congrArg (List.take (leadingZeros a + 49)) h
  rwa [List.take_take, List.take_take, Nat.min_eq_left (by omega)] at hshorter

/-- A key with seven leading zeros and a one; its address shows the bits up to the 120th, its
subnet those up to the 56th. -/
def plainKey : NodeKey := .padded 32 [1]

/-- Two keys that differ in the 121st bit have one address, and two that differ in the 57th have
one subnet and two addresses. -/
theorem one_address_for_two_keys :
    let late : NodeKey := plainKey.set 15 0x80
    let early : NodeKey := plainKey.set 7 0x80
    (leadingZeros plainKey ≤ 143 ∧ leadingZeros late ≤ 143 ∧ leadingZeros early ≤ 143) ∧
      plainKey ≠ late ∧ nodeAddress plainKey = nodeAddress late ∧
      nodeSubnet plainKey = nodeSubnet early ∧ nodeAddress plainKey ≠ nodeAddress early := by
  intro late early
  have hzeros : leadingZeros plainKey ≤ 143 ∧ leadingZeros late ≤ 143 ∧
      leadingZeros early ≤ 143 := by decide +kernel
  obtain ⟨hplain, hlate, hearly⟩ := hzeros
  have hboth := (collide_iff_shared_front plainKey late).1 hplain hlate
  have hone := (collide_iff_shared_front plainKey early).1 hplain hearly
  refine ⟨⟨hplain, hlate, hearly⟩, by decide, hboth.1.mpr (by decide +kernel),
    hone.2.1.mpr (by decide +kernel), ?_⟩
  rw [ne_eq, hone.1]
  decide +kernel

end MeshNode
