import MeshNode.Proofs.Octets
import MeshNode.Proofs.Records
import MeshNode.Proofs.Text.Escapes

/-!
# Hexadecimal text, read back

Octets are read from the texts that write each of them with its two digits, small or capital, and
from no others.

* **digits** — `IsDigitOf`: the sixteen digits in both cases; `hexDigit?_eq_some_iff`: a character is
  read as the value that it is a digit of; `toLower_eq_hexChar_iff`: those of one value are the casings
  of one character;
* **halves** — `halves`: the values of the digits that octets are written with;
  `decodePairs_eq_ok_iff`: pairs of digits are read as the octets whose halves they are;
* **texts** — `decodeHex_utf8_eq_ok_iff`: the octets of a text are digits exactly if its characters
  are; `spellsOctets_iff` and `map_toLower_eq_encodeHex_iff`: the same for a text described place by
  place, and for the casings of the text that is written.
-/

namespace MeshNode.Text

/-! ## Digits -/

/-- Whether a character is the digit of a value, small or capital. -/
def IsDigitOf (c : Char) (value : Nat) : Prop :=
  "0123456789abcdef".toList[value]? = some c ∨ "0123456789ABCDEF".toList[value]? = some c

instance (c : Char) (value : Nat) : Decidable (IsDigitOf c value) :=
  inferInstanceAs (Decidable (_ ∨ _))

variable {c : Char} {d : Nat}

theorem lt_of_isDigitOf (h : IsDigitOf c d) : d < 16 := by
  rcases h with h | h
  · exact (List.getElem?_eq_some_iff.mp h).1
  · exact (List.getElem?_eq_some_iff.mp h).1

/-- A character is read as the value that it is a digit of. -/
theorem hexDigit?_eq_some_iff : hexDigit? c = some d ↔ IsDigitOf c d := by
  constructor
  · intro h
    have hall : ∀ n : Fin 128, ∀ d ∈ hexDigit? (Char.ofNat n), IsDigitOf (Char.ofNat n) d := by
      decide
    have hchar := hall ⟨c.toNat, lt_of_hexDigit? h⟩
    rw [Char.ofNat_toNat] at hchar
    exact hchar d h
  · intro h
    have hall : ∀ d < 16, "0123456789abcdef".toList[d]?.bind hexDigit? = some d ∧
        "0123456789ABCDEF".toList[d]?.bind hexDigit? = some d := by decide
    obtain ⟨hsmall, hcapital⟩ := hall d (lt_of_isDigitOf h)
    rcases h with hc | hc
    · rw [hc] at hsmall
      exact hsmall
    · rw [hc] at hcapital
      exact hcapital

theorem value_lt_of_hexDigit? (h : hexDigit? c = some d) : d < 16 :=
  lt_of_isDigitOf (hexDigit?_eq_some_iff.mp h)

/-- Beyond ASCII no character is taken for a capital. -/
theorem toLower_eq_self (h : 128 ≤ c.toNat) : c.toLower = c := by
  delta Char.toLower
  refine dif_neg fun hcapital => ?_
  have hle : c.toNat ≤ 'Z'.toNat := hcapital.2
  exact absurd (Nat.le_trans h hle) (by decide)

/-- The characters read as a value are the casings of its digit. -/
theorem toLower_eq_hexChar_iff (hd : d < 16) : c.toLower = hexChar d ↔ hexDigit? c = some d := by
  by_cases hc : c.toNat < 128
  · have hall : ∀ (n : Fin 128) (d : Fin 16), (Char.ofNat n).toLower = hexChar d.val ↔
        hexDigit? (Char.ofNat n) = some d.val := by decide +kernel
    have hchar := hall ⟨c.toNat, hc⟩ ⟨d, hd⟩
    rw [Char.ofNat_toNat] at hchar
    exact hchar
  · have hascii : ∀ d : Fin 16, (hexChar d.val).toNat < 128 := by decide
    refine iff_of_false (fun h => ?_) fun h => hc (lt_of_hexDigit? h)
    rw [toLower_eq_self (Nat.le_of_not_lt hc)] at h
    exact hc (h ▸ hascii ⟨d, hd⟩)

/-! ## Halves of octets -/

/-- The values of the digits that octets are written with: the upper half of each, then the lower. -/
def halves (bytes : List UInt8) : List Nat :=
  bytes.flatMap fun b => [b.toNat / 16, b.toNat % 16]

variable {bytes : List UInt8}

theorem halves_cons (b : UInt8) (bytes : List UInt8) :
    halves (b :: bytes) = b.toNat / 16 :: b.toNat % 16 :: halves bytes := rfl

theorem lt_of_mem_halves (h : d ∈ halves bytes) : d < 16 := by
  obtain ⟨b, -, hd⟩ := List.mem_flatMap.mp h
  have hb : b.toNat < 256 := b.toNat_lt
  rw [List.mem_cons, List.mem_singleton] at hd
  omega

theorem length_halves (bytes : List UInt8) : (halves bytes).length = 2 * bytes.length := by
  induction bytes with
  | nil => rfl
  | cons b bytes ih =>
    rw [halves_cons, List.length_cons, List.length_cons, ih, List.length_cons]
    omega

theorem encodeHex_eq (bytes : List UInt8) : encodeHex bytes = (halves bytes).map hexChar := by
  rw [halves, List.map_flatMap]
  rfl

/-- The halves of an octet stand behind those of the octets before it. -/
theorem getElem?_halves (bytes : List UInt8) (i : Nat) :
    (halves bytes)[2 * i]? = bytes[i]?.map (·.toNat / 16) ∧
      (halves bytes)[2 * i + 1]? = bytes[i]?.map (·.toNat % 16) := by
  induction bytes generalizing i with
  | nil => exact ⟨rfl, rfl⟩
  | cons b bytes ih =>
    cases i with
    | zero => exact ⟨rfl, rfl⟩
    | succ i =>
      rw [halves_cons, Nat.mul_succ]
      exact ih i

/-- An octet is put together from two digits exactly if these are its halves. -/
theorem ofNat_eq_iff {h l : Nat} (hh : h < 16) (hl : l < 16) (b : UInt8) :
    UInt8.ofNat (h * 16 + l) = b ↔ h = b.toNat / 16 ∧ l = b.toNat % 16 := by
  have hb : b.toNat < 256 := b.toNat_lt
  have hsmall : (UInt8.ofNat (h * 16 + l)).toNat = h * 16 + l :=
    UInt8.toNat_ofNat_of_lt' (show h * 16 + l < 256 by omega)
  rw [← UInt8.toNat_inj, hsmall]
  omega

/-- Where a value is missing there is no row of values. -/
theorem ne_map_some {α : Type} {found : List (Option α)} {values : List α} (h : none ∈ found) :
    found ≠ values.map some := by
  rintro rfl
  obtain ⟨value, -, hnone⟩ := List.mem_map.mp h
  cases hnone

/-- Pairs of digits are read as the octets whose halves they are. -/
theorem decodePairs_eq_ok_iff {index : Nat} {octets : List UInt8} (heven : octets.length % 2 = 0) :
    decodePairs index octets = .ok bytes ↔ octets.map hexOctet? = (halves bytes).map some := by
  fun_induction decodePairs index octets generalizing bytes with
  | case1 index hi lo rest hhi =>
    refine iff_of_false nofun (ne_map_some ?_)
    rw [List.map_cons, hhi]
    exact List.mem_cons_self
  | case2 index hi lo rest h hlo hhi =>
    refine iff_of_false nofun (ne_map_some ?_)
    rw [List.map_cons, List.map_cons, hlo]
    exact List.mem_cons_of_mem _ List.mem_cons_self
  | case3 index hi lo rest h l hlo hhi ih =>
    have hrest : rest.length % 2 = 0 := by
      rw [List.length_cons, List.length_cons] at heven
      omega
    have hvalue := ofNat_eq_iff (value_lt_of_hexDigit? hhi) (value_lt_of_hexDigit? hlo)
    rw [bind_eq_ok, List.map_cons, List.map_cons, hhi, hlo]
    constructor
    · rintro ⟨tail, htail, ⟨⟩⟩
      obtain ⟨hupper, hlower⟩ := (hvalue _).mp rfl
      rw [(ih hrest).mp htail, halves_cons, ← hupper, ← hlower]
      rfl
    · intro heq
      cases bytes with
      | nil => cases heq
      | cons b bytes =>
        rw [halves_cons, List.map_cons, List.map_cons, List.cons.injEq, List.cons.injEq] at heq
        obtain ⟨hupper, hlower, htail⟩ := heq
        refine ⟨bytes, (ih hrest).mpr htail, ?_⟩
        rw [(hvalue b).mpr ⟨Option.some.inj hupper, Option.some.inj hlower⟩]
        rfl
  | case4 octets index hother =>
    -- what is left are no octets, since a single one is no whole pair
    obtain rfl : octets = [] := by
      match octets with
      | [] => rfl
      | [_] => cases heven
      | hi :: lo :: rest => exact absurd rfl (hother hi lo rest)
    cases bytes with
    | nil => exact iff_of_true rfl rfl
    | cons b bytes => exact iff_of_false nofun nofun

/-! ## Texts -/

/-- The octets of characters are digits exactly if the characters are. -/
theorem map_hexOctet?_eq_iff {s : List Char} {digits : List Nat} :
    (s.flatMap utf8Char).map hexOctet? = digits.map some ↔ s.map hexDigit? = digits.map some := by
  induction s generalizing digits with
  | nil => rfl
  | cons c s ih =>
    rw [List.flatMap_cons, List.map_append, List.map_cons]
    cases hc : isHex c with
    | true =>
      rw [utf8Char_of_lt (lt_of_isHex hc), List.map_singleton, hexOctet?_eq (lt_of_isHex hc),
        List.singleton_append]
      cases digits with
      | nil => exact iff_of_false nofun nofun
      | cons d digits => rw [List.map_cons, List.cons.injEq, List.cons.injEq, ih]
    | false =>
      obtain ⟨b, octets, hoctets, hnone⟩ := exists_utf8Char_of_not_isHex hc
      rw [hoctets, List.map_cons, List.cons_append, hnone, hexDigit?_eq_none hc]
      exact iff_of_false (ne_map_some List.mem_cons_self) (ne_map_some List.mem_cons_self)

/-- Octets are read from a text exactly if its characters are digits of their halves. -/
theorem decodeHex_utf8_eq_ok_iff {s : String} :
    decodeHex (utf8 s) = .ok bytes ↔ s.toList.map hexDigit? = (halves bytes).map some := by
  rw [decodeHex, utf8_eq_flatMap, ← map_hexOctet?_eq_iff]
  split
  · next hodd =>
    refine iff_of_false nofun fun h => ?_
    have hlength := congrArg List.length h
    rw [List.length_map, List.length_map, length_halves] at hlength
    omega
  · next heven => exact decodePairs_eq_ok_iff (by omega)

/-- Whether a text writes octets with two digits each, small or capital, the upper half first. -/
structure SpellsOctets {n : Nat} (s : List Char) (o : Octets n) : Prop where
  length : s.length = 2 * n
  pair : ∀ i : Fin n, ∃ hi lo h l, s[2 * i.val]? = some hi ∧ s[2 * i.val + 1]? = some lo ∧
    IsDigitOf hi h ∧ IsDigitOf lo l ∧ (o.get i).toNat = h * 16 + l

/-- Rows are the same if they are so pair by pair. -/
theorem ext_pairs {α : Type} {as bs : List α}
    (h : ∀ i, as[2 * i]? = bs[2 * i]? ∧ as[2 * i + 1]? = bs[2 * i + 1]?) : as = bs := by
  apply List.ext_getElem?
  intro j
  rcases Nat.mod_two_eq_zero_or_one j with hj | hj
  · rw [show j = 2 * (j / 2) by omega]
    exact (h _).1
  · rw [show j = 2 * (j / 2) + 1 by omega]
    exact (h _).2

/-- A text that spells octets place by place has digits of their halves. -/
theorem spellsOctets_iff {n : Nat} {s : List Char} {o : Octets n} :
    SpellsOctets s o ↔ s.map hexDigit? = (halves o.toList).map some := by
  constructor
  · intro h
    apply ext_pairs
    intro i
    simp only [List.getElem?_map, (getElem?_halves o.toList i).1, (getElem?_halves o.toList i).2]
    by_cases hi : i < n
    · obtain ⟨c, d, x, y, hc, hd, hx, hy, hvalue⟩ := h.pair ⟨i, hi⟩
      have hoctet := o.getElem?_toList ⟨i, hi⟩
      obtain ⟨hupper, hlower⟩ :
          x = (o.get ⟨i, hi⟩).toNat / 16 ∧ y = (o.get ⟨i, hi⟩).toNat % 16 := by
        have hlt := lt_of_isDigitOf hy
        omega
      rw [hc, hd, hoctet]
      simp only [Option.map_some, hexDigit?_eq_some_iff.mpr hx, hexDigit?_eq_some_iff.mpr hy,
        hupper, hlower, and_self]
    · have hlength := h.length
      have hend : o.toList[i]? = none :=
        List.getElem?_eq_none (by rw [o.length_toList]; exact Nat.le_of_not_lt hi)
      rw [hend, List.getElem?_eq_none (by omega), List.getElem?_eq_none (by omega)]
      exact ⟨rfl, rfl⟩
  · intro h
    have hlength := congrArg List.length h
    rw [List.length_map, List.length_map, length_halves, o.length_toList] at hlength
    refine ⟨hlength, fun i => ?_⟩
    have hoctet := o.getElem?_toList i
    have hupper := congrArg (·[2 * i.val]?) h
    have hlower := congrArg (·[2 * i.val + 1]?) h
    simp only [List.getElem?_map, (getElem?_halves o.toList i).1, (getElem?_halves o.toList i).2,
      hoctet, Option.map_some, Option.map_eq_some_iff] at hupper hlower
    obtain ⟨c, hc, hx⟩ := hupper
    obtain ⟨d, hd, hy⟩ := hlower
    exact ⟨c, d, _, _, hc, hd, hexDigit?_eq_some_iff.mp hx, hexDigit?_eq_some_iff.mp hy, by omega⟩

theorem map_toLower_eq_map_hexChar_iff {s : List Char} {digits : List Nat}
    (hdigits : ∀ d ∈ digits, d < 16) :
    s.map Char.toLower = digits.map hexChar ↔ s.map hexDigit? = digits.map some := by
  induction s generalizing digits with
  | nil =>
    cases digits with
    | nil => exact iff_of_true rfl rfl
    | cons d digits => exact iff_of_false nofun nofun
  | cons c s ih =>
    cases digits with
    | nil => exact iff_of_false nofun nofun
    | cons d digits =>
      obtain ⟨hd, hdigits⟩ := List.forall_mem_cons.mp hdigits
      rw [List.map_cons, List.map_cons, List.map_cons, List.map_cons, List.cons.injEq,
        List.cons.injEq, toLower_eq_hexChar_iff hd, ih hdigits]

/-- The casings of the text that is written for octets are the texts with digits of their
halves. -/
theorem map_toLower_eq_encodeHex_iff {s : List Char} :
    s.map Char.toLower = encodeHex bytes ↔ s.map hexDigit? = (halves bytes).map some := by
  rw [encodeHex_eq]
  exact map_toLower_eq_map_hexChar_iff fun _ => lt_of_mem_halves

/-- What is written has small letters only. -/
theorem map_toLower_encodeHex (bytes : List UInt8) :
    (encodeHex bytes).map Char.toLower = encodeHex bytes := by
  have hlower : ∀ d : Fin 16, (hexChar d.val).toLower = hexChar d.val := by decide
  rw [encodeHex_eq, List.map_map]
  exact List.map_congr_left fun d hd => hlower ⟨d, lt_of_mem_halves hd⟩

end MeshNode.Text
