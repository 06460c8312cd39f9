import MeshNode.Text.Utf8

/-!
# Laws of UTF-8

* **octets** — `utf8_eq_flatMap`: the octets of a text are those of its characters;
  `length_le_utf8ByteSize`: at least one for each;
* **back** — `ofUtf8?_utf8`, `utf8_of_ofUtf8?`: a text is read from its own octets, and from no
  others;
* **order** — `utf8_lt_utf8`: texts are ordered as their octets are.
-/

namespace MeshNode.Text

theorem toList_loop (bytes : ByteArray) (i : Nat) (acc : List UInt8) :
    ByteArray.toList.loop bytes i acc = acc.reverse ++ bytes.data.toList.drop i := by
  fun_induction ByteArray.toList.loop bytes i acc with
  | case1 i acc hi ih =>
    have hlt : i < bytes.data.toList.length := by simpa using hi
    have hget : bytes.get! i = bytes.data.toList[i] := getElem!_pos bytes.data i hi
    rw [ih, List.drop_eq_getElem_cons hlt, hget]
    simp
  | case2 i acc hi =>
    have hle : bytes.data.toList.length ≤ i := by simpa using hi
    rw [List.drop_eq_nil_of_le hle, List.append_nil]

theorem utf8_eq_data (s : String) : utf8 s = s.toByteArray.data.toList := by
  rw [utf8, ByteArray.toList, toList_loop]
  rfl

theorem ofUtf8?_utf8 (s : String) : ofUtf8? (utf8 s) = some s := by
  have hbytes : (⟨(utf8 s).toArray⟩ : ByteArray) = s.toByteArray := by
    rw [utf8_eq_data]
  rw [ofUtf8?, hbytes, String.fromUTF8?, dif_pos s.isValidUTF8]
  rfl

/-- Octets are read as no text but the one whose octets they are. -/
theorem utf8_of_ofUtf8? {bytes : List UInt8} {s : String} (h : ofUtf8? bytes = some s) :
    utf8 s = bytes := by
  rw [ofUtf8?, String.fromUTF8?] at h
  split at h
  · cases h
    rw [utf8_eq_data]
    rfl
  · cases h

theorem utf8_eq_flatMap (s : String) : utf8 s = s.toList.flatMap utf8Char := by
  have hencode : s.toByteArray = (s.toList.flatMap String.utf8EncodeChar).toByteArray :=
    String.utf8Encode_toList.symm
  rw [utf8_eq_data, hencode, List.toList_data_toByteArray]
  rfl

theorem length_utf8Char_pos (c : Char) : 0 < (utf8Char c).length :=
  List.length_pos_iff.mpr String.utf8EncodeChar_ne_nil

/-- A text has at least as many octets as characters. -/
theorem length_le_utf8ByteSize (s : String) : s.length ≤ s.utf8ByteSize := by
  have hoctets : ∀ chars : List Char, chars.length ≤ (chars.flatMap utf8Char).length := by
    intro chars
    induction chars with
    | nil => exact Nat.le_refl _
    | cons c chars ih =>
      have hpos := length_utf8Char_pos c
      rw [List.flatMap_cons, List.length_append, List.length_cons]
      omega
  have hsize : s.utf8ByteSize = (utf8 s).length := by
    rw [utf8_eq_data]
    rfl
  rw [hsize, utf8_eq_flatMap, ← String.length_toList]
  exact hoctets s.toList

/-- Only the empty text has no octets. -/
theorem utf8_ne_nil {s : String} (h : s ≠ "") : utf8 s ≠ [] := by
  have hempty : utf8 "" = [] := by
    rw [utf8_eq_flatMap]
    rfl
  intro hnil
  have hback := ofUtf8?_utf8 s
  rw [hnil, ← hempty, ofUtf8?_utf8] at hback
  exact h (Option.some.inj hback).symm

/-! ## Order -/

variable {n m : Nat} {s t : List UInt8}

theorem ofNat_cons_lt_iff (hn : n < 256) (hm : m < 256) :
    UInt8.ofNat n :: s < UInt8.ofNat m :: t ↔ n < m ∨ n = m ∧ s < t := by
  rw [List.cons_lt_cons_iff, UInt8.lt_iff_toNat_lt, ← UInt8.toNat_inj,
    UInt8.toNat_ofNat_of_lt' hn, UInt8.toNat_ofNat_of_lt' hm]

/-- A character has one to four octets, by the size of its number. -/
theorem utf8Char_cases (c : Char) :
    (c.toNat < 0x80 ∧ utf8Char c = [UInt8.ofNat c.toNat]) ∨
    (0x80 ≤ c.toNat ∧ c.toNat < 0x800 ∧ utf8Char c =
      [UInt8.ofNat (c.toNat / 64 + 0xc0), UInt8.ofNat (c.toNat % 64 + 0x80)]) ∨
    (0x800 ≤ c.toNat ∧ c.toNat < 0x10000 ∧ utf8Char c =
      [UInt8.ofNat (c.toNat / 4096 + 0xe0), UInt8.ofNat (c.toNat / 64 % 64 + 0x80),
        UInt8.ofNat (c.toNat % 64 + 0x80)]) ∨
    (0x10000 ≤ c.toNat ∧ c.toNat < 0x110000 ∧ utf8Char c =
      [UInt8.ofNat (c.toNat / 262144 + 0xf0), UInt8.ofNat (c.toNat / 4096 % 64 + 0x80),
        UInt8.ofNat (c.toNat / 64 % 64 + 0x80), UInt8.ofNat (c.toNat % 64 + 0x80)]) := by
  have hmax : c.toNat < 0x110000 := by
    rcases c.valid with hc | hc
    · exact Nat.lt_trans hc (by decide)
    · exact hc.2
  have hoctets : utf8Char c =
      if c.toNat ≤ 0x7f then [UInt8.ofNat c.toNat]
      else if c.toNat ≤ 0x7ff then
        [UInt8.ofNat (c.toNat / 64 % 32 + 0xc0), UInt8.ofNat (c.toNat % 64 + 0x80)]
      else if c.toNat ≤ 0xffff then
        [UInt8.ofNat (c.toNat / 4096 % 16 + 0xe0), UInt8.ofNat (c.toNat / 64 % 64 + 0x80),
          UInt8.ofNat (c.toNat % 64 + 0x80)]
      else
        [UInt8.ofNat (c.toNat / 262144 % 8 + 0xf0), UInt8.ofNat (c.toNat / 4096 % 64 + 0x80),
          UInt8.ofNat (c.toNat / 64 % 64 + 0x80), UInt8.ofNat (c.toNat % 64 + 0x80)] := rfl
  rw [hoctets]
  by_cases hone : c.toNat ≤ 0x7f
  · exact Or.inl ⟨by omega, if_pos hone⟩
  rw [if_neg hone]
  by_cases htwo : c.toNat ≤ 0x7ff
  · rw [if_pos htwo, Nat.mod_eq_of_lt (show c.toNat / 64 < 32 by omega)]
    exact Or.inr (Or.inl ⟨by omega, by omega, rfl⟩)
  rw [if_neg htwo]
  by_cases hthree : c.toNat ≤ 0xffff
  · rw [if_pos hthree, Nat.mod_eq_of_lt (show c.toNat / 4096 < 16 by omega)]
    exact Or.inr (Or.inr (Or.inl ⟨by omega, by omega, rfl⟩))
  · rw [if_neg hthree, Nat.mod_eq_of_lt (show c.toNat / 262144 < 8 by omega)]
    exact Or.inr (Or.inr (Or.inr ⟨by omega, hmax, rfl⟩))

theorem utf8Char_of_lt {c : Char} (h : c.toNat < 128) : utf8Char c = [UInt8.ofNat c.toNat] := by
  rcases utf8Char_cases c with ⟨-, hoctets⟩ | ⟨hc, -⟩ | ⟨hc, -⟩ | ⟨hc, -⟩
  · exact hoctets
  · omega
  · omega
  · omega

/-- The octets of a smaller character come first, whatever follows them: its first octet is smaller
if it has fewer octets, and among characters of one size the digits decide. -/
theorem utf8Char_append_lt {c d : Char} (h : c < d) (s t : List UInt8) :
    utf8Char c ++ s < utf8Char d ++ t := by
  have hlt : c.toNat < d.toNat := h
  rcases utf8Char_cases c with ⟨hc, hoctets⟩ | ⟨hc, hc', hoctets⟩ | ⟨hc, hc', hoctets⟩ |
    ⟨hc, hc', hoctets⟩ <;>
  rcases utf8Char_cases d with ⟨hd, hoctets'⟩ | ⟨hd, hd', hoctets'⟩ | ⟨hd, hd', hoctets'⟩ |
    ⟨hd, hd', hoctets'⟩ <;>
  rw [hoctets, hoctets'] <;>
  simp (disch := omega) only [List.cons_append, List.nil_append, ofNat_cons_lt_iff] <;>
  omega

theorem flatMap_utf8Char_lt {a b : List Char} (h : a < b) :
    a.flatMap utf8Char < b.flatMap utf8Char := by
  induction a generalizing b with
  | nil =>
    cases b with
    | nil => cases h
    | cons d b =>
      rw [List.flatMap_cons, List.flatMap_nil]
      obtain ⟨octet, rest, hoctets⟩ := List.exists_cons_of_ne_nil
        (show utf8Char d ≠ [] from String.utf8EncodeChar_ne_nil)
      rw [hoctets]
      exact List.nil_lt_cons octet _
  | cons c a ih =>
    cases b with
    | nil => cases h
    | cons d b =>
      rw [List.flatMap_cons, List.flatMap_cons]
      rcases List.cons_lt_cons_iff.mp h with hlt | ⟨rfl, hlt⟩
      · exact utf8Char_append_lt hlt _ _
      · exact List.append_left_lt (ih hlt)

/-- Texts are ordered as their octets are. -/
theorem utf8_lt_utf8 {a b : String} (h : a < b) : utf8 a < utf8 b := by
  rw [utf8_eq_flatMap, utf8_eq_flatMap]
  exact flatMap_utf8Char_lt (String.lt_iff.mp h)

end MeshNode.Text
