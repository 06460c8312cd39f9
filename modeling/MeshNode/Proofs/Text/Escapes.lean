import MeshNode.Proofs.Text.Percent

/-!
# Escapes in text

A text that is sent as it is, without being encoded first, is decoded all the same: a percent sign
in it that two hexadecimal digits follow becomes one octet.

* **what is decoded** — `unescape`, character by character; `percentDecode_flatMap`: octets that
  stand for characters one by one are decoded to it;
* **a class encoded on the way** — `percentDecode_percentEncode`: this makes no difference;
* **escapes** — `hasEscape`; `unescape_of_not_hasEscape`, `length_unescape`: a text is its own
  decoded form if it has none, and longer than that if it has one.
-/

namespace MeshNode.Text

/-! ## What is decoded -/

/-- The octets that a text stands for if it is taken as percent-encoded. -/
def unescape : List Char → List UInt8
  | '%' :: hi :: lo :: rest =>
    match hexDigit? hi, hexDigit? lo with
    | some h, some l => UInt8.ofNat (h * 16 + l) :: unescape rest
    | _, _ => 0x25 :: unescape (hi :: lo :: rest)
  | c :: rest => utf8Char c ++ unescape rest
  | [] => []

/-- What a way to write characters as octets has to keep for their decoding: the digits and the
percent sign, and that nothing else looks like them. -/
structure Spells (F : Char → List UInt8) : Prop where
  percent : F '%' = [0x25]
  hex : ∀ c, isHex c = true → F c = [UInt8.ofNat c.toNat]
  other : ∀ c, isHex c = false → ∃ b bytes, F c = b :: bytes ∧ hexOctet? b = none
  decoded : ∀ c, c ≠ '%' → ∀ bytes, percentDecode (F c ++ bytes) = utf8Char c ++ percentDecode bytes

variable {F : Char → List UInt8} {s : List Char} {c : Char}

theorem hexDigit?_eq_none (h : isHex c = false) : hexDigit? c = none := by
  rw [isHex, Option.isSome_eq_false_iff, Option.isNone_iff_eq_none] at h
  exact h

/-- Digits are found among the octets of a text only where they stand in it. -/
theorem Spells.of_flatMap (h : Spells F) {hi lo : UInt8} {bytes : List UInt8} {x y : Nat}
    (hs : s.flatMap F = hi :: lo :: bytes) (hhi : hexOctet? hi = some x)
    (hlo : hexOctet? lo = some y) :
    ∃ c d rest, s = c :: d :: rest ∧ isHex c = true ∧ isHex d = true := by
  have hfirst : ∀ {t : List Char} {b : UInt8} {bytes : List UInt8} {n : Nat},
      t.flatMap F = b :: bytes → hexOctet? b = some n →
      ∃ c rest, t = c :: rest ∧ isHex c = true ∧ rest.flatMap F = bytes := by
    intro t b bytes n ht hb
    cases t with
    | nil => cases ht
    | cons c rest =>
      rw [List.flatMap_cons] at ht
      cases hc : isHex c with
      | true =>
        rw [h.hex c hc] at ht
        exact ⟨c, rest, rfl, hc, (List.cons.inj ht).2⟩
      | false =>
        obtain ⟨b', bytes', hoctets, hnone⟩ := h.other c hc
        rw [hoctets] at ht
        rw [(List.cons.inj ht).1, hb] at hnone
        cases hnone
  obtain ⟨c, t, rfl, hc, ht⟩ := hfirst hs hhi
  obtain ⟨d, rest, rfl, hd, -⟩ := hfirst ht hlo
  exact ⟨c, d, rest, rfl, hc, hd⟩

/-- A percent sign stands for itself unless two digits follow it. -/
theorem percentDecode_percent {bytes : List UInt8}
    (h : ∀ hi lo rest x y, bytes = hi :: lo :: rest → hexOctet? hi = some x →
      hexOctet? lo ≠ some y) :
    percentDecode (0x25 :: bytes) = 0x25 :: percentDecode bytes := by
  match bytes with
  | [] => rfl
  | [_] => rfl
  | hi :: lo :: rest =>
    rw [percentDecode]
    split
    · next x y hx hy => exact absurd hy (h hi lo rest x y rfl hx)
    · rfl

theorem percentDecode_octet {hi lo : Char} {x y : Nat} (hhi : hexDigit? hi = some x)
    (hlo : hexDigit? lo = some y) (bytes : List UInt8) :
    percentDecode (0x25 :: UInt8.ofNat hi.toNat :: UInt8.ofNat lo.toNat :: bytes) =
      UInt8.ofNat (x * 16 + y) :: percentDecode bytes := by
  rw [percentDecode, hexOctet?_eq (lt_of_hexDigit? hhi), hexOctet?_eq (lt_of_hexDigit? hlo), hhi,
    hlo]

/-- Octets that stand for characters one by one are decoded to what these stand for. -/
theorem percentDecode_flatMap (h : Spells F) (s : List Char) :
    percentDecode (s.flatMap F) = unescape s := by
  fun_induction unescape s with
  | case1 hi lo rest x y hlo hhi ih =>
    rw [List.flatMap_cons, List.flatMap_cons, List.flatMap_cons, h.percent,
      h.hex hi (by rw [isHex, hhi]; rfl), h.hex lo (by rw [isHex, hlo]; rfl)]
    simp only [List.cons_append, List.nil_append]
    rw [percentDecode_octet hhi hlo, ih]
  | case2 hi lo rest hnone ih =>
    rw [List.flatMap_cons, h.percent, List.singleton_append, percentDecode_percent, ih]
    -- two digits among the octets would be the next two characters
    intro b b' bytes x y hs hb hb'
    obtain ⟨c, d, rest', heq, hc, hd⟩ := h.of_flatMap hs hb hb'
    cases heq
    obtain ⟨x, hx⟩ := Option.isSome_iff_exists.mp hc
    obtain ⟨y, hy⟩ := Option.isSome_iff_exists.mp hd
    exact hnone x y hx hy
  | case3 c rest hother ih =>
    rw [List.flatMap_cons]
    by_cases hc : c = '%'
    · subst hc
      rw [h.percent, List.singleton_append, percentDecode_percent, ih]
      · rfl
      · intro b b' bytes x y hs hb hb'
        obtain ⟨c, d, rest', heq, -, -⟩ := h.of_flatMap hs hb hb'
        exact hother c d rest' rfl heq
    · rw [h.decoded c hc, ih]
  | case4 => rfl

/-! ## Characters as they are -/

theorem percentDecode_append_of_not_mem {front : List UInt8} (h : 0x25 ∉ front)
    (bytes : List UInt8) : percentDecode (front ++ bytes) = front ++ percentDecode bytes := by
  induction front with
  | nil => rfl
  | cons b front ih =>
    rw [List.mem_cons, not_or] at h
    rw [List.cons_append, percentDecode_cons_of_ne (Ne.symm h.1), ih h.2, List.cons_append]

theorem ofNat_ne_percent {n : Nat} (hn : n < 256) (h : n ≠ 0x25) : 0x25 ≠ UInt8.ofNat n := by
  intro heq
  have hnat := congrArg UInt8.toNat heq
  rw [UInt8.toNat_ofNat_of_lt' hn] at hnat
  exact h hnat.symm

theorem percent_not_mem_utf8Char (h : c ≠ '%') : 0x25 ∉ utf8Char c := by
  have hne : c.toNat ≠ 0x25 := fun heq => h (Char.toNat_inj.mp heq)
  rcases utf8Char_cases c with ⟨hc, hoctets⟩ | ⟨hc, hc', hoctets⟩ | ⟨hc, hc', hoctets⟩ |
    ⟨hc, hc', hoctets⟩ <;>
  simp only [hoctets, List.mem_cons, List.not_mem_nil, or_false, not_or]
  · exact ofNat_ne_percent (by omega) hne
  · exact ⟨ofNat_ne_percent (by omega) (by omega), ofNat_ne_percent (by omega) (by omega)⟩
  · exact ⟨ofNat_ne_percent (by omega) (by omega), ofNat_ne_percent (by omega) (by omega),
      ofNat_ne_percent (by omega) (by omega)⟩
  · exact ⟨ofNat_ne_percent (by omega) (by omega), ofNat_ne_percent (by omega) (by omega),
      ofNat_ne_percent (by omega) (by omega), ofNat_ne_percent (by omega) (by omega)⟩

/-- The first octet of a character is a digit only if the character is one. -/
theorem exists_utf8Char_of_not_isHex (h : isHex c = false) :
    ∃ b bytes, utf8Char c = b :: bytes ∧ hexOctet? b = none := by
  have hbeyond : ∀ n, 0x80 ≤ n → n < 256 → hexOctet? (UInt8.ofNat n) = none := by
    intro n hn hn'
    have hvalid : n.isValidChar := Or.inl (Nat.lt_trans hn' (by decide))
    have hchar : (Char.ofNat n).toNat = n := by
      rw [Char.ofNat, dif_pos hvalid]
      rfl
    rw [hexOctet?, UInt8.toNat_ofNat_of_lt' hn']
    refine hexDigit?_eq_none (Bool.eq_false_iff.mpr fun hhex => ?_)
    exact Nat.not_le_of_lt (lt_of_isHex hhex) (hchar.symm ▸ hn)
  rcases utf8Char_cases c with ⟨hc, hoctets⟩ | ⟨hc, hc', hoctets⟩ | ⟨hc, hc', hoctets⟩ |
    ⟨hc, hc', hoctets⟩ <;>
  refine ⟨_, _, hoctets, ?_⟩
  · rw [hexOctet?_eq hc]
    exact hexDigit?_eq_none h
  · exact hbeyond _ (by omega) (by omega)
  · exact hbeyond _ (by omega) (by omega)
  · exact hbeyond _ (by omega) (by omega)

/-! ## A class encoded on the way -/

/-- The octets of a character of which a class is encoded. -/
def encodedOctets (encoded : Char → Bool) (c : Char) : List UInt8 :=
  (percentEncode encoded [c]).flatMap utf8Char

theorem percentDecode_percentOctets (octets bytes : List UInt8) :
    percentDecode ((octets.flatMap percentOctet).flatMap utf8Char ++ bytes) =
      octets ++ percentDecode bytes := by
  induction octets with
  | nil => rfl
  | cons b octets ih =>
    have hb : b.toNat < 256 := b.toNat_lt
    have hhi := hexDigit?_hexCharUpper (show b.toNat / 16 < 16 by omega)
    have hlo := hexDigit?_hexCharUpper (show b.toNat % 16 < 16 by omega)
    have hpercent : utf8Char '%' = [0x25] := rfl
    have hvalue : UInt8.ofNat (b.toNat / 16 * 16 + b.toNat % 16) = b := by
      rw [Nat.div_add_mod']
      exact UInt8.ofNat_toNat
    rw [List.flatMap_cons, percentOctet, List.flatMap_append, List.flatMap_cons, List.flatMap_cons,
      List.flatMap_cons, List.flatMap_nil, hpercent, utf8Char_of_lt (lt_of_hexDigit? hhi),
      utf8Char_of_lt (lt_of_hexDigit? hlo)]
    simp only [List.cons_append, List.nil_append]
    rw [percentDecode_octet hhi hlo, hvalue, ih]

/-- A class that spares the percent sign and the digits keeps what they mean. -/
theorem spells_encodedOctets {encoded : Char → Bool}
    (h : ∀ c, c = '%' ∨ isHex c = true → encoded c = false) : Spells (encodedOctets encoded) := by
  have hplain : ∀ c, encoded c = false → c.toNat < 128 →
      encodedOctets encoded c = [UInt8.ofNat c.toNat] := by
    intro c hc hlt
    have hkeep : (encoded c || decide (c.toNat ≥ 0x80)) = false := by
      rw [hc, Bool.false_or, decide_eq_false_iff_not]
      omega
    rw [encodedOctets, percentEncode, List.flatMap_singleton, hkeep, if_neg Bool.false_ne_true,
      List.flatMap_singleton, utf8Char_of_lt hlt]
  refine ⟨hplain '%' (h '%' (Or.inl rfl)) (by decide),
    fun c hc => hplain c (h c (Or.inr hc)) (lt_of_isHex hc), fun c hc => ?_, fun c hc bytes => ?_⟩
  · rw [encodedOctets, percentEncode, List.flatMap_singleton]
    split
    · obtain ⟨b, octets, hoctets, -⟩ := exists_utf8Char_of_not_isHex hc
      rw [hoctets]
      exact ⟨0x25, _, rfl, by decide⟩
    · rw [List.flatMap_singleton]
      exact exists_utf8Char_of_not_isHex hc
  · rw [encodedOctets, percentEncode, List.flatMap_singleton]
    split
    · exact percentDecode_percentOctets (utf8Char c) bytes
    · rw [List.flatMap_singleton]
      exact percentDecode_append_of_not_mem (percent_not_mem_utf8Char hc) bytes

/-- To encode a class that spares the percent sign and the digits makes no difference to what is
decoded. -/
theorem percentDecode_percentEncode {encoded : Char → Bool}
    (h : ∀ c, c = '%' ∨ isHex c = true → encoded c = false) (s : List Char) :
    percentDecode (utf8 (String.ofList (percentEncode encoded s))) = unescape s := by
  have hoctets : encodedOctets encoded = fun c =>
      (if encoded c || c.toNat ≥ 0x80 then (utf8Char c).flatMap percentOctet else [c]).flatMap
        utf8Char := by
    funext c
    rw [encodedOctets, percentEncode, List.flatMap_singleton]
  rw [utf8_eq_flatMap, String.toList_ofList, ← percentDecode_flatMap (spells_encodedOctets h),
    percentEncode, List.flatMap_assoc, hoctets]

/-! ## Escapes -/

/-- Whether two hexadecimal digits begin a text. -/
def beginsWithOctet : List Char → Bool
  | hi :: lo :: _ => isHex hi && isHex lo
  | _ => false

/-- Whether a percent sign that two hexadecimal digits follow stands in a text. -/
def hasEscape : List Char → Bool
  | [] => false
  | c :: rest => (c == '%' && beginsWithOctet rest) || hasEscape rest

/-- A text without escapes stands for itself. -/
theorem unescape_of_not_hasEscape (h : hasEscape s = false) : unescape s = s.flatMap utf8Char := by
  fun_induction unescape s with
  | case1 hi lo rest x y hlo hhi ih =>
    have hbegins : beginsWithOctet (hi :: lo :: rest) = true := by
      rw [beginsWithOctet, isHex, isHex, hhi, hlo]
      rfl
    rw [hasEscape, hbegins] at h
    cases h
  | case2 hi lo rest hnone ih =>
    rw [hasEscape, Bool.or_eq_false_iff] at h
    rw [ih h.2]
    rfl
  | case3 c rest hother ih =>
    rw [hasEscape, Bool.or_eq_false_iff] at h
    rw [ih h.2, List.flatMap_cons]
  | case4 => rfl

/-- What is decoded is no longer than the text, and shorter if there is an escape. -/
theorem length_unescape (s : List Char) :
    (unescape s).length + (if hasEscape s then 1 else 0) ≤ (s.flatMap utf8Char).length := by
  fun_induction unescape s with
  | case1 hi lo rest x y hlo hhi ih =>
    -- three characters become one octet
    have hhi := length_utf8Char_pos hi
    have hlo := length_utf8Char_pos lo
    have hle : (unescape rest).length ≤ (rest.flatMap utf8Char).length := by omega
    have hone : (if hasEscape ('%' :: hi :: lo :: rest) then 1 else 0) ≤ 1 := by
      split <;> omega
    rw [List.flatMap_cons, List.flatMap_cons, List.flatMap_cons, List.length_cons,
      List.length_append, List.length_append, List.length_append]
    omega
  | case2 hi lo rest hnone ih =>
    have hescape : hasEscape ('%' :: hi :: lo :: rest) = hasEscape (hi :: lo :: rest) := by
      have hbegins : beginsWithOctet (hi :: lo :: rest) = false := by
        rw [beginsWithOctet, Bool.and_eq_false_iff]
        cases hhi : hexDigit? hi with
        | none => exact Or.inl (by rw [isHex, hhi]; rfl)
        | some x =>
          refine Or.inr ?_
          rw [isHex, Option.isSome_eq_false_iff, Option.isNone_iff_eq_none,
            Option.eq_none_iff_forall_ne_some]
          exact fun y hlo => hnone x y hhi hlo
      rw [hasEscape, hbegins, Bool.and_false, Bool.false_or]
    rw [hescape, List.flatMap_cons, List.length_cons]
    have hpercent : (utf8Char '%').length = 1 := rfl
    rw [List.length_append, hpercent]
    omega
  | case3 c rest hother ih =>
    have hescape : hasEscape (c :: rest) = hasEscape rest := by
      have hbegins : (c == '%' && beginsWithOctet rest) = false := by
        cases rest with
        | nil => exact Bool.and_false _
        | cons hi rest =>
          cases rest with
          | nil => exact Bool.and_false _
          | cons lo rest =>
            rw [Bool.and_eq_false_iff, beq_eq_false_iff_ne]
            exact Or.inl fun heq => hother hi lo rest heq rfl
      rw [hasEscape, hbegins, Bool.false_or]
    rw [hescape, List.flatMap_cons, List.length_append, List.length_append]
    omega
  | case4 => exact Nat.le_refl 0

end MeshNode.Text
