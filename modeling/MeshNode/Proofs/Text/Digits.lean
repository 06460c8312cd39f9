import MeshNode.Text.Hex
import MeshNode.Text.Integer

/-!
# Numbers in text

* **classes of characters** — `ascii_imp` and the classes that are within ASCII;
* **what is written** — `exists_digit_of_mem_toDigits`: the characters of a number
  are digits of its base;
* **what is read back** — `readDigits_toDigits` and `foldlM_hexDigits`: the digits
  of a number are read as that number, if it is within the bound;
* **what is ever read** — `readDigits_lt`, `parseUnsigned_lt`, and exactly what with
  `SpellsNumber`: `parseUnsigned_eq_ok_iff`.
-/

namespace MeshNode.Text

/-! ## Characters of ASCII -/

/-- One class of characters lies in another if it does so among those of ASCII and has no others. -/
theorem ascii_imp {p q : Char → Bool}
    (h : ∀ n : Fin 128, p (Char.ofNat n) = true → q (Char.ofNat n) = true) {c : Char}
    (hc : c.toNat < 128) (hp : p c = true) : q c = true := by
  have hchar := h ⟨c.toNat, hc⟩
  rw [Char.ofNat_toNat] at hchar
  exact hchar hp

theorem lt_of_isHex {c : Char} (h : isHex c = true) : c.toNat < 128 := by
  have hle : ∀ d : Char, d.toNat < 128 → c ≤ d → c.toNat < 128 := fun d hd hcd =>
    Nat.lt_of_le_of_lt hcd hd
  rw [isHex, hexDigit?] at h
  split at h
  · next hc => exact hle '9' (by decide) hc.2
  · split at h
    · next hc => exact hle 'f' (by decide) hc.2
    · split at h
      · next hc => exact hle 'F' (by decide) hc.2
      · exact absurd h Bool.false_ne_true

theorem lt_of_isDecimal {c : Char} (h : isDecimal c = true) : c.toNat < 128 := by
  rw [isDecimal, decimalDigit?] at h
  split at h
  · next hc => exact Nat.lt_of_le_of_lt (show c.toNat ≤ '9'.toNat from hc.2) (by decide)
  · exact absurd h Bool.false_ne_true

theorem lt_of_isAlphanum {c : Char} (h : c.isAlphanum = true) : c.toNat < 128 := by
  delta Char.isAlphanum Char.isAlpha Char.isUpper Char.isLower Char.isDigit at h
  simp only [Bool.or_eq_true, Bool.and_eq_true, decide_eq_true_eq, UInt32.le_iff_toNat_le] at h
  rcases h with (h | h) | h
  · exact Nat.lt_of_le_of_lt h.2 (by decide)
  · exact Nat.lt_of_le_of_lt h.2 (by decide)
  · exact Nat.lt_of_le_of_lt h.2 (by decide)

/-! ## Digits -/

theorem decimalDigit?_digitChar {d : Nat} (h : d < 10) : decimalDigit? d.digitChar = some d := by
  have hall : ∀ d : Fin 10, decimalDigit? d.val.digitChar = some d.val := by decide
  exact hall ⟨d, h⟩

theorem hexDigit?_digitChar {d : Nat} (h : d < 16) : hexDigit? d.digitChar = some d := by
  have hall : ∀ d : Fin 16, hexDigit? d.val.digitChar = some d.val := by decide
  exact hall ⟨d, h⟩

theorem hexDigit?_hexCharUpper {d : Nat} (h : d < 16) : hexDigit? (hexCharUpper d) = some d := by
  have hall : ∀ d : Fin 16, hexDigit? (hexCharUpper d.val) = some d.val := by decide
  exact hall ⟨d, h⟩

/-- The characters of a number are digits of its base. -/
theorem exists_digit_of_mem_toDigits {b : Nat} (hb : 1 < b) {n : Nat} {c : Char}
    (h : c ∈ Nat.toDigits b n) : ∃ d < b, c = d.digitChar := by
  induction n using Nat.strongRecOn with
  | ind n ih =>
    rcases Nat.lt_or_ge n b with hn | hn
    · rw [Nat.toDigits_of_lt_base hn, List.mem_singleton] at h
      exact ⟨n, hn, h⟩
    · rw [Nat.toDigits_of_base_le hb hn, List.mem_append, List.mem_singleton] at h
      rcases h with h | h
      · exact ih (n / b) (Nat.div_lt_self (by omega) hb) h
      · exact ⟨n % b, Nat.mod_lt n (by omega), h⟩

/-! ## Decimal numbers -/

theorem readDigits_append (bound acc : Nat) (s t : List Char) :
    readDigits bound acc (s ++ t) = (readDigits bound acc s).bind (readDigits bound · t) := by
  induction s generalizing acc with
  | nil => rfl
  | cons c s ih =>
    simp only [List.cons_append, readDigits]
    cases decimalDigit? c with
    | none => rfl
    | some d =>
      dsimp only
      split
      · exact ih _
      · rfl

/-- A number within the bound is read back from its digits. -/
theorem readDigits_toDigits {bound n : Nat} (h : n < bound) :
    readDigits bound 0 (Nat.toDigits 10 n) = .ok n := by
  induction n using Nat.strongRecOn with
  | ind n ih =>
    have hlast : ∀ acc, acc * 10 + n % 10 = n →
        readDigits bound acc [(n % 10).digitChar] = .ok n := by
      intro acc hacc
      have hmod : n % 10 < 10 := Nat.mod_lt n (by omega)
      simp only [readDigits, decimalDigit?_digitChar hmod, hacc, h, if_true]
    rcases Nat.lt_or_ge n 10 with hn | hn
    · have hmod : n % 10 = n := Nat.mod_eq_of_lt hn
      rw [Nat.toDigits_of_lt_base hn, ← hmod]
      rw [hmod] at hlast ⊢
      exact hlast 0 (by omega)
    · have hfront := ih (n / 10) (by omega) (by omega)
      rw [Nat.toDigits_of_base_le (by omega) hn, readDigits_append, hfront]
      exact hlast (n / 10) (by omega)

theorem readDigits_toString {bound n : Nat} (h : n < bound) :
    readDigits bound 0 (toString n).toList = .ok n := by
  rw [Nat.toString_eq_repr, Nat.toList_repr]
  exact readDigits_toDigits h

/-- Whatever is read stays within the bound. -/
theorem readDigits_lt {bound acc n : Nat} {s : List Char} (hacc : acc < bound)
    (h : readDigits bound acc s = .ok n) : n < bound := by
  induction s generalizing acc with
  | nil =>
    cases h
    exact hacc
  | cons c s ih =>
    simp only [readDigits] at h
    split at h
    · cases h
    · split at h
      · next hnext => exact ih hnext h
      · cases h

/-- The same for a number that a sign may stand before. -/
theorem parseUnsigned_lt {bound n : Nat} {s : String} (hbound : 0 < bound)
    (h : parseUnsigned bound s = .ok n) : n < bound := by
  unfold parseUnsigned at h
  split at h
  · cases h
  · cases h
  · exact readDigits_lt hbound h
  · exact readDigits_lt hbound h

/-- The number that decimal digits spell behind those of another number. -/
def decimalValue (acc : Nat) (digits : List Char) : Nat :=
  digits.foldl (fun n c => n * 10 + (c.toNat - '0'.toNat)) acc

/-- Whether a text spells a number: decimal digits, perhaps behind a plus sign. -/
def SpellsNumber (s : List Char) (n : Nat) : Prop :=
  ∃ digits, digits ≠ [] ∧ (∀ c ∈ digits, isDecimal c = true) ∧ decimalValue 0 digits = n ∧
    (s = digits ∨ s = '+' :: digits)

theorem le_decimalValue (acc : Nat) (digits : List Char) : acc ≤ decimalValue acc digits := by
  induction digits generalizing acc with
  | nil => exact Nat.le_refl acc
  | cons c digits ih =>
    have hstep : acc ≤ acc * 10 + (c.toNat - '0'.toNat) := by omega
    exact Nat.le_trans hstep (ih _)

/-- A number is read from digits that spell it, if it is within the bound; no digit that comes
later makes it smaller. -/
theorem readDigits_eq_ok_iff {bound acc n : Nat} (hacc : acc < bound) {s : List Char} :
    readDigits bound acc s = .ok n ↔
      (∀ c ∈ s, isDecimal c = true) ∧ decimalValue acc s = n ∧ n < bound := by
  induction s generalizing acc with
  | nil =>
    refine ⟨?_, ?_⟩
    · rintro ⟨⟩
      exact ⟨nofun, rfl, hacc⟩
    · rintro ⟨-, rfl, -⟩
      rfl
  | cons c s ih =>
    rw [readDigits, List.forall_mem_cons]
    cases hc : decimalDigit? c with
    | none =>
      have hnot : isDecimal c = false := by
        rw [isDecimal, hc]
        rfl
      simp [hnot]
    | some d =>
      have hdecimal : isDecimal c = true := by
        rw [isDecimal, hc]
        rfl
      have hd : c.toNat - '0'.toNat = d := by
        rw [decimalDigit?] at hc
        split at hc
        · exact Option.some.inj hc
        · cases hc
      have hvalue : decimalValue acc (c :: s) = decimalValue (acc * 10 + d) s := by
        rw [← hd]
        rfl
      simp only [hdecimal, true_and, hvalue]
      by_cases hnext : acc * 10 + d < bound
      · rw [if_pos hnext]
        exact ih hnext
      · rw [if_neg hnext]
        refine ⟨nofun, ?_⟩
        rintro ⟨-, rfl, hlt⟩
        exact absurd (Nat.lt_of_le_of_lt (le_decimalValue _ s) hlt) hnext

/-- A text is read as the number that it spells, if that is within the bound. -/
theorem parseUnsigned_eq_ok_iff {bound n : Nat} (hbound : 0 < bound) {s : String} :
    parseUnsigned bound s = .ok n ↔ SpellsNumber s.toList n ∧ n < bound := by
  have hplus : isDecimal '+' = false := by decide
  unfold parseUnsigned
  split
  · next hs =>
    rw [hs]
    refine ⟨nofun, ?_⟩
    rintro ⟨⟨digits, hne, -, -, rfl | hs⟩, -⟩
    · exact absurd rfl hne
    · cases hs
  · next hs =>
    rw [hs]
    refine ⟨nofun, ?_⟩
    rintro ⟨⟨digits, hne, hdigits, -, rfl | hs⟩, -⟩
    · exact absurd (hdigits '+' List.mem_cons_self) (by rw [hplus]; exact Bool.false_ne_true)
    · exact absurd (List.cons.inj hs).2.symm hne
  · next digits hne hs =>
    rw [hs, readDigits_eq_ok_iff hbound]
    constructor
    · rintro ⟨hdigits, hvalue, hlt⟩
      refine ⟨⟨digits, ?_, hdigits, hvalue, Or.inr rfl⟩, hlt⟩
      rintro rfl
      exact hne rfl
    · rintro ⟨⟨digits', hne', hdigits, hvalue, rfl | hs⟩, hlt⟩
      · exact absurd (hdigits '+' List.mem_cons_self) (by rw [hplus]; exact Bool.false_ne_true)
      · obtain ⟨-, rfl⟩ := List.cons.inj hs
        exact ⟨hdigits, hvalue, hlt⟩
  · next hne _ hsign =>
    rw [readDigits_eq_ok_iff hbound]
    constructor
    · rintro ⟨hdigits, hvalue, hlt⟩
      exact ⟨⟨s.toList, hne, hdigits, hvalue, Or.inl rfl⟩, hlt⟩
    · rintro ⟨⟨digits, -, hdigits, hvalue, hs | hs⟩, hlt⟩
      · rw [hs]
        exact ⟨hdigits, hvalue, hlt⟩
      · exact absurd hs (hsign digits)

theorem SpellsNumber.unique {s : String} {n m : Nat} (hn : SpellsNumber s.toList n)
    (hm : SpellsNumber s.toList m) : n = m := by
  have hbound : 0 < n + m + 1 := Nat.succ_pos _
  have hreadn := (parseUnsigned_eq_ok_iff hbound).mpr ⟨hn, by omega⟩
  have hreadm := (parseUnsigned_eq_ok_iff hbound).mpr ⟨hm, by omega⟩
  exact Except.ok.inj (hreadn.symm.trans hreadm)

theorem isDecimal_of_mem_toString {n : Nat} {c : Char} (h : c ∈ (toString n).toList) :
    isDecimal c = true := by
  rw [Nat.toString_eq_repr, Nat.toList_repr] at h
  obtain ⟨d, hd, rfl⟩ := exists_digit_of_mem_toDigits (by omega) h
  rw [isDecimal, decimalDigit?_digitChar hd]
  rfl

theorem toString_ne_nil (n : Nat) : (toString n).toList ≠ [] := by
  rw [Nat.toString_eq_repr, Nat.toList_repr]
  exact Nat.toDigits_ne_nil

theorem head?_toDigits {n : Nat} (hn : 0 < n) : (Nat.toDigits 10 n).head? ≠ some '0' := by
  induction n using Nat.strongRecOn with
  | ind n ih =>
    rcases Nat.lt_or_ge n 10 with hlt | hge
    · have hdigit : ∀ d : Fin 10, 0 < d.val → d.val.digitChar ≠ '0' := by decide
      rw [Nat.toDigits_of_lt_base hlt]
      intro h
      exact hdigit ⟨n, hlt⟩ hn (Option.some.inj h)
    · have hfront := ih (n / 10) (by omega) (by omega)
      rw [Nat.toDigits_of_base_le (by omega) hge, List.head?_append]
      cases hhead : (Nat.toDigits 10 (n / 10)).head? with
      | none => exact absurd (List.head?_eq_none_iff.mp hhead) Nat.toDigits_ne_nil
      | some d =>
        rw [hhead] at hfront
        exact hfront

/-- No number is written with a zero that could be left out. -/
theorem toString_ne_zero_cons (n : Nat) (c : Char) (s : List Char) :
    (toString n).toList ≠ '0' :: c :: s := by
  rw [Nat.toString_eq_repr, Nat.toList_repr]
  intro h
  rcases Nat.lt_or_ge n 10 with hlt | hge
  · rw [Nat.toDigits_of_lt_base hlt] at h
    exact absurd (List.cons.inj h).2 (by simp)
  · have hhead := head?_toDigits (show 0 < n by omega)
    rw [h] at hhead
    exact hhead rfl

/-- A number is read back from its text. -/
theorem parseUnsigned_toString {bound n : Nat} (h : n < bound) :
    parseUnsigned bound (toString n) = .ok n := by
  have hplus : ∀ rest, (toString n).toList ≠ '+' :: rest := fun rest heq =>
    absurd (isDecimal_of_mem_toString (heq ▸ List.mem_cons_self)) (by decide)
  unfold parseUnsigned
  split
  · next hnil => exact absurd hnil (toString_ne_nil n)
  · next heq => exact absurd heq (hplus [])
  · next digits _ heq => exact absurd heq (hplus digits)
  · exact readDigits_toString h

/-! ## Hexadecimal numbers -/

/-- A number is read back from its hexadecimal digits. -/
theorem foldlM_hexDigits (n : Nat) :
    (hexDigits n).foldlM (fun acc c => (hexDigit? c).map (acc * 16 + ·)) 0 = some n := by
  rw [hexDigits]
  induction n using Nat.strongRecOn with
  | ind n ih =>
    rcases Nat.lt_or_ge n 16 with hn | hn
    · simp [Nat.toDigits_of_lt_base hn, hexDigit?_digitChar hn]
    · have hmod : n % 16 < 16 := Nat.mod_lt n (by omega)
      have hvalue : n / 16 * 16 + n % 16 = n := by omega
      rw [Nat.toDigits_of_base_le (by omega) hn, List.foldlM_append, ih (n / 16) (by omega)]
      simp [hexDigit?_digitChar hmod, hvalue]

theorem isHex_of_mem_hexDigits {n : Nat} {c : Char} (h : c ∈ hexDigits n) : isHex c = true := by
  obtain ⟨d, hd, rfl⟩ := exists_digit_of_mem_toDigits (by omega) h
  rw [isHex, hexDigit?_digitChar hd]
  rfl

end MeshNode.Text
