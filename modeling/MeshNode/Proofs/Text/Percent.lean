import MeshNode.Proofs.Text.Digits
import MeshNode.Proofs.Text.Utf8
import MeshNode.Text.Percent

/-!
# Percent encoding, read back

However octets are percent-encoded, decoding gives them back, and what encodes them is one segment
of a path.

* **encoded texts** — `mem_percentEncode`: what they consist of; `percentEncode_eq_self`: a text with
  nothing to encode stays as it is;
* **ways to write octets** — `Encoded`; `encoded_percentEncode` is the one that encodes the
  characters of a class;
* **back** — `percentDecode_encoded`;
* **one segment** — `ne_of_mem_encoded`.
-/

namespace MeshNode.Text

/-! ## Encoded texts -/

section Encoding

variable {encoded : Char → Bool} {s : List Char} {c : Char}

theorem mem_percentOctet {b : UInt8} (hc : c ∈ percentOctet b) : c = '%' ∨ isHex c = true := by
  have hdigit : ∀ n : Fin 16, isHex (hexCharUpper n) = true := by decide
  have hb : b.toNat < 256 := b.toNat_lt
  rw [percentOctet, List.mem_cons, List.mem_cons, List.mem_singleton] at hc
  rcases hc with rfl | rfl | rfl
  · exact Or.inl rfl
  · exact Or.inr (hdigit ⟨b.toNat / 16, by omega⟩)
  · exact Or.inr (hdigit ⟨b.toNat % 16, by omega⟩)

/-- A character of an encoded text is part of an escape, or it is one of the text that needs none. -/
theorem mem_percentEncode (hc : c ∈ percentEncode encoded s) :
    (c = '%' ∨ isHex c = true) ∨ (c ∈ s ∧ encoded c = false ∧ c.toNat < 0x80) := by
  obtain ⟨d, hd, hc⟩ := List.mem_flatMap.mp hc
  split at hc
  · obtain ⟨b, -, hc⟩ := List.mem_flatMap.mp hc
    exact Or.inl (mem_percentOctet hc)
  · next hplain =>
    obtain rfl := List.mem_singleton.mp hc
    simp only [Bool.or_eq_true, decide_eq_true_eq, not_or, Bool.not_eq_true] at hplain
    exact Or.inr ⟨hd, hplain.1, Nat.lt_of_not_le hplain.2⟩

theorem percentEncode_eq_self (h : ∀ c ∈ s, encoded c = false ∧ c.toNat < 0x80) :
    percentEncode encoded s = s := by
  rw [percentEncode]
  induction s with
  | nil => rfl
  | cons c s ih =>
    have hc := h c List.mem_cons_self
    have hplain : ¬ (encoded c || decide (c.toNat ≥ 0x80)) = true := by
      simp only [hc.1, Bool.false_or, decide_eq_true_eq]
      omega
    rw [List.flatMap_cons, if_neg hplain, ih fun x hx => h x (List.mem_cons_of_mem c hx)]
    rfl

theorem eq_nil_of_percentEncode (h : percentEncode encoded s = []) : s = [] := by
  cases s with
  | nil => rfl
  | cons c s =>
    obtain ⟨b, bytes, hoctets⟩ := List.exists_cons_of_length_pos (length_utf8Char_pos c)
    rw [percentEncode, List.flatMap_cons, hoctets] at h
    split at h <;> cases h

end Encoding

/-! ## Ways to write octets -/

/-- Whether a character may stand for itself in a segment of a path. -/
def isSegmentChar (c : Char) : Bool := c.isAlphanum || "-._~!$&'()*+,;=:@".toList.contains c

/-- The ways to write octets in a segment of a path: each one with its two digits, in capitals or
not, or as the character that it is if that may stand for itself. -/
inductive Encoded : List UInt8 → List Char → Prop
  | nil : Encoded [] []
  | plain {c : Char} {bytes : List UInt8} {w : List Char} : isSegmentChar c = true →
    Encoded bytes w → Encoded (UInt8.ofNat c.toNat :: bytes) (c :: w)
  | octet {hi lo : Char} {h l : Nat} {bytes : List UInt8} {w : List Char} :
    hexDigit? hi = some h → hexDigit? lo = some l → Encoded bytes w →
    Encoded (UInt8.ofNat (h * 16 + l) :: bytes) ('%' :: hi :: lo :: w)

variable {bytes : List UInt8} {w : List Char} {c : Char}

theorem lt_of_isSegmentChar (h : isSegmentChar c = true) : c.toNat < 128 := by
  have hmarks : "-._~!$&'()*+,;=:@".toList.all (fun d => d.toNat < 128) = true := by decide
  rw [isSegmentChar, Bool.or_eq_true, List.contains_iff_mem] at h
  rcases h with h | h
  · exact lt_of_isAlphanum h
  · exact of_decide_eq_true (List.all_eq_true.mp hmarks c h)

theorem ne_of_isSegmentChar (h : isSegmentChar c = true) {d : Char}
    (hd : isSegmentChar d = false) : c ≠ d := by
  rintro rfl
  exact Bool.false_ne_true (hd.symm.trans h)

theorem isSegmentChar_of_isHex (h : isHex c = true) : isSegmentChar c = true :=
  ascii_imp (by decide) (lt_of_isHex h) h

theorem encoded_flatMap_percentOctet (bytes : List UInt8) {rest : List UInt8} (h : Encoded rest w) :
    Encoded (bytes ++ rest) (bytes.flatMap percentOctet ++ w) := by
  induction bytes with
  | nil => exact h
  | cons b bytes ih =>
    have hb : b.toNat < 256 := b.toNat_lt
    have hvalue : UInt8.ofNat (b.toNat / 16 * 16 + b.toNat % 16) = b := by
      rw [Nat.div_add_mod']
      exact UInt8.ofNat_toNat
    have hoctet := Encoded.octet (hexDigit?_hexCharUpper (show b.toNat / 16 < 16 by omega))
      (hexDigit?_hexCharUpper (show b.toNat % 16 < 16 by omega)) ih
    rw [hvalue] at hoctet
    exact hoctet

/-- A class may leave those characters as they are that stand for themselves. -/
theorem encoded_percentEncode {encoded : Char → Bool}
    (h : ∀ c, encoded c = false → c.toNat < 128 → isSegmentChar c = true) (s : String) :
    Encoded (utf8 s) (percentEncode encoded s.toList) := by
  rw [utf8_eq_flatMap]
  induction s.toList with
  | nil => exact .nil
  | cons c rest ih =>
    rw [percentEncode, List.flatMap_cons, List.flatMap_cons]
    split
    · exact encoded_flatMap_percentOctet (utf8Char c) ih
    · next hplain =>
      simp only [Bool.or_eq_true, decide_eq_true_eq, not_or, Bool.not_eq_true] at hplain
      have hlt : c.toNat < 128 := Nat.lt_of_not_le hplain.2
      rw [utf8Char_of_lt hlt]
      exact .plain (h c hplain.1 hlt) ih

/-! ## Back -/

theorem hexOctet?_eq (h : c.toNat < 128) : hexOctet? (UInt8.ofNat c.toNat) = hexDigit? c := by
  rw [hexOctet?, UInt8.toNat_ofNat_of_lt' (Nat.lt_trans h (by decide)), Char.ofNat_toNat]

theorem isHex_of_hexDigit? {d : Nat} (h : hexDigit? c = some d) : isHex c = true := by
  rw [isHex, h]
  rfl

theorem lt_of_hexDigit? {d : Nat} (h : hexDigit? c = some d) : c.toNat < 128 :=
  lt_of_isHex (isHex_of_hexDigit? h)

theorem percentDecode_cons_of_ne {b : UInt8} (h : b ≠ 0x25) (rest : List UInt8) :
    percentDecode (b :: rest) = b :: percentDecode rest := by
  rw [percentDecode]
  rintro hi lo tail rfl
  exact absurd rfl h

/-- Octets are decoded from whatever encodes them. -/
theorem percentDecode_encoded (h : Encoded bytes w) :
    percentDecode (utf8 (String.ofList w)) = bytes := by
  rw [utf8_eq_flatMap, String.toList_ofList]
  induction h with
  | nil => rfl
  | plain hc _ ih =>
    have hlt := lt_of_isSegmentChar hc
    have hne : UInt8.ofNat _ ≠ 0x25 := fun heq => by
      have hnat := congrArg UInt8.toNat heq
      rw [UInt8.toNat_ofNat_of_lt' (Nat.lt_trans hlt (by decide))] at hnat
      exact (ne_of_isSegmentChar hc (d := '%') (by decide)) (Char.toNat_inj.mp hnat)
    rw [List.flatMap_cons, utf8Char_of_lt hlt, List.singleton_append,
      percentDecode_cons_of_ne hne, ih]
  | octet hhi hlo _ ih =>
    have hpercent : utf8Char '%' = [0x25] := rfl
    rw [List.flatMap_cons, List.flatMap_cons, List.flatMap_cons, hpercent,
      utf8Char_of_lt (lt_of_hexDigit? hhi), utf8Char_of_lt (lt_of_hexDigit? hlo)]
    simp only [List.cons_append, List.nil_append]
    rw [percentDecode, hexOctet?_eq (lt_of_hexDigit? hhi), hexOctet?_eq (lt_of_hexDigit? hlo),
      hhi, hlo]
    simp only [ih]

/-! ## One segment -/

theorem mem_encoded (h : Encoded bytes w) (hc : c ∈ w) : c = '%' ∨ isSegmentChar c = true := by
  induction h with
  | nil => exact absurd hc List.not_mem_nil
  | plain hfirst _ ih =>
    rcases List.mem_cons.mp hc with rfl | hc
    · exact Or.inr hfirst
    · exact ih hc
  | octet hhi hlo _ ih =>
    rcases List.mem_cons.mp hc with rfl | hc
    · exact Or.inl rfl
    rcases List.mem_cons.mp hc with rfl | hc
    · exact Or.inr (isSegmentChar_of_isHex (isHex_of_hexDigit? hhi))
    rcases List.mem_cons.mp hc with rfl | hc
    · exact Or.inr (isSegmentChar_of_isHex (isHex_of_hexDigit? hlo))
    · exact ih hc

/-- What encodes some octets holds neither a slash nor the mark of a query or fragment. -/
theorem ne_of_mem_encoded (h : Encoded bytes w) (hc : c ∈ w) : c ≠ '/' ∧ c ≠ '?' ∧ c ≠ '#' := by
  rcases mem_encoded h hc with rfl | hc
  · decide
  · exact ⟨ne_of_isSegmentChar hc (by decide), ne_of_isSegmentChar hc (by decide),
      ne_of_isSegmentChar hc (by decide)⟩

theorem ne_nil_of_encoded (h : Encoded bytes w) (hne : bytes ≠ []) : w ≠ [] := by
  cases h with
  | nil => exact absurd rfl hne
  | plain => exact List.cons_ne_nil _ _
  | octet => exact List.cons_ne_nil _ _

end MeshNode.Text
