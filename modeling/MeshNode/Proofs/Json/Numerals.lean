import MeshNode.Json.Printer
import MeshNode.Json.Token
import MeshNode.Proofs.Text.Digits

/-!
# Numbers in JSON, written and read back

A numeral is scanned up to the first character that could not go on with it. Every integer of 64
bits is read back from its text; of a floating-point number this is not always so.

* **scanning** — `Ends`; `scan?_append`: what follows makes no difference;
* **reading** — `read?`, the number of a whole text; `token?_of_read?`;
* **integers** — `gatherWhole_of_readDigits`: digits that fit are gathered as they are read;
  `read?_int`.
-/

namespace MeshNode.Numeral

open MeshNode.Text

/-! ## Scanning -/

/-- Whether a text could not go on with a numeral. -/
def Ends (rest : List Char) : Bool :=
  rest.head?.all fun c => !isDecimal c && c != '.' && c != 'e' && c != 'E'

variable {s tail rest : List Char} {c : Char} {ds : List Nat} {n : Numeral}

theorem of_ends_cons (h : Ends (c :: rest) = true) :
    decimalDigit? c = none ∧ c ≠ '.' ∧ c ≠ 'e' ∧ c ≠ 'E' := by
  simp only [Ends, List.head?_cons, Option.all_some, Bool.and_eq_true, Bool.not_eq_true',
    isDecimal, Option.isSome_eq_false_iff, Option.isNone_iff_eq_none, bne_iff_ne] at h
  exact ⟨h.1.1.1, h.1.1.2, h.1.2, h.2⟩

theorem digits_append (hrest : Ends rest = true) (h : digits s = (ds, tail)) :
    digits (s ++ rest) = (ds, tail ++ rest) := by
  induction s generalizing ds with
  | nil =>
    obtain ⟨rfl, rfl⟩ := Prod.mk.inj h
    cases rest with
    | nil => rfl
    | cons c rest =>
      show digits (c :: rest) = ([], c :: rest)
      rw [digits, (of_ends_cons hrest).1]
  | cons c s ih =>
    rw [digits] at h
    rw [List.cons_append, digits]
    cases hc : decimalDigit? c with
    | none =>
      rw [hc] at h
      obtain ⟨rfl, rfl⟩ := Prod.mk.inj h
      rfl
    | some d =>
      rw [hc] at h
      obtain ⟨rfl, htail⟩ := Prod.mk.inj h
      rw [ih (Prod.ext rfl htail)]

theorem whole?_cases (h : whole? s = some (ds, tail)) : s = '0' :: tail ∧ ds = [0] ∨
    s.head? ≠ some '0' ∧ ds ≠ [] ∧ digits s = (ds, tail) := by
  unfold whole? at h
  split at h
  · obtain ⟨rfl, rfl⟩ := Prod.mk.inj (Option.some.inj h)
    exact Or.inl ⟨rfl, rfl⟩
  · next hzero =>
    refine Or.inr ⟨fun hhead => ?_, ?_⟩
    · obtain ⟨t, rfl⟩ := List.head?_eq_some_iff.mp hhead
      exact hzero t rfl
    · split at h
      · cases h
      · next hnone =>
        have hdigits := Option.some.inj h
        exact ⟨fun hds => hnone tail (by rw [hdigits, hds]), hdigits⟩

theorem whole?_of_digits (hhead : s.head? ≠ some '0') (hds : ds ≠ [])
    (h : digits s = (ds, tail)) : whole? s = some (ds, tail) := by
  unfold whole?
  split
  · exact absurd rfl hhead
  · rw [h]
    split
    · next heq => exact absurd (Prod.mk.inj heq).1 hds
    · rfl

theorem head?_append_ne {d : Char} (hs : s ≠ []) (h : s.head? ≠ some d) (rest : List Char) :
    (s ++ rest).head? ≠ some d := by
  obtain ⟨c, t, rfl⟩ := List.exists_cons_of_ne_nil hs
  exact h

theorem ne_nil_of_digits (hds : ds ≠ []) (h : digits s = (ds, tail)) : s ≠ [] := by
  rintro rfl
  exact hds (Prod.mk.inj h).1.symm

theorem whole?_append (hrest : Ends rest = true) (h : whole? s = some (ds, tail)) :
    whole? (s ++ rest) = some (ds, tail ++ rest) := by
  rcases whole?_cases h with ⟨rfl, rfl⟩ | ⟨hhead, hds, hdigits⟩
  · rfl
  · exact whole?_of_digits (head?_append_ne (ne_nil_of_digits hds hdigits) hhead rest) hds
      (digits_append hrest hdigits)

theorem fraction?_append (hrest : Ends rest = true) {f : Option (List Nat)}
    (h : fraction? s = some (f, tail)) : fraction? (s ++ rest) = some (f, tail ++ rest) := by
  unfold fraction? at h
  split at h
  · next t =>
    split at h
    · cases h
    · next ds t' hnone hdigits =>
      obtain ⟨rfl, rfl⟩ := Prod.mk.inj (Option.some.inj h)
      rw [List.cons_append, fraction?, digits_append hrest hdigits]
      split
      · next heq => exact absurd (Prod.mk.inj heq).1 hnone
      · next heq =>
        obtain ⟨rfl, rfl⟩ := Prod.mk.inj heq
        rfl
  · next hpoint =>
    obtain ⟨rfl, rfl⟩ := Prod.mk.inj (Option.some.inj h)
    rw [fraction?]
    rintro t ht
    cases s with
    | nil =>
      rw [List.nil_append] at ht
      exact (of_ends_cons (ht ▸ hrest)).2.1 rfl
    | cons c s => exact hpoint s (by rw [(List.cons.inj ht).1])

theorem exponentDigits?_append (hrest : Ends rest = true) {negative : Bool}
    {e : Option (Bool × List Nat)} (h : exponentDigits? negative s = some (e, tail)) :
    exponentDigits? negative (s ++ rest) = some (e, tail ++ rest) := by
  unfold exponentDigits? at h
  split at h
  · cases h
  · next ds t hnone hdigits =>
    obtain ⟨rfl, rfl⟩ := Prod.mk.inj (Option.some.inj h)
    rw [exponentDigits?, digits_append hrest hdigits]
    split
    · next heq => exact absurd (Prod.mk.inj heq).1 hnone
    · next heq =>
      obtain ⟨rfl, rfl⟩ := Prod.mk.inj heq
      rfl

theorem exponent?_append (hrest : Ends rest = true) {e : Option (Bool × List Nat)}
    (h : exponent? s = some (e, tail)) : exponent? (s ++ rest) = some (e, tail ++ rest) := by
  cases s with
  | nil =>
    obtain ⟨rfl, rfl⟩ := Prod.mk.inj (Option.some.inj h)
    cases rest with
    | nil => rfl
    | cons c rest =>
      obtain ⟨-, -, hlower, hupper⟩ := of_ends_cons hrest
      show exponent? (c :: rest) = some (none, c :: rest)
      unfold exponent?
      exact if_neg (not_or.mpr ⟨hlower, hupper⟩)
  | cons c s =>
    rw [List.cons_append]
    unfold exponent? at h ⊢
    by_cases hmark : c = 'e' ∨ c = 'E'
    · simp only [hmark, if_true] at h ⊢
      split at h
      · exact exponentDigits?_append hrest h
      · exact exponentDigits?_append hrest h
      · next hplus hminus =>
        have hs : s ≠ [] := by
          rintro rfl
          cases h
        obtain ⟨d, t, rfl⟩ := List.exists_cons_of_ne_nil hs
        rw [List.cons_append]
        split
        · next heq => exact absurd (by rw [(List.cons.inj heq).1]) (hplus t)
        · next heq => exact absurd (by rw [(List.cons.inj heq).1]) (hminus t)
        · exact exponentDigits?_append hrest h
    · simp only [hmark, if_false] at h ⊢
      obtain ⟨rfl, rfl⟩ := Prod.mk.inj (Option.some.inj h)
      rfl

/-- The numeral of a text after its sign. -/
def scanFrom? (negative : Bool) (s : List Char) : Option (Numeral × List Char) := do
  let (whole, s) ← whole? s
  let (fraction, s) ← fraction? s
  let (exponent, s) ← exponent? s
  return (⟨negative, whole, fraction, exponent⟩, s)

theorem scan?_minus (s : List Char) : scan? ('-' :: s) = scanFrom? true s := rfl

theorem scan?_of_ne (h : s.head? ≠ some '-') : scan? s = scanFrom? false s := by
  unfold scan?
  split
  next heq =>
  split at heq
  · exact absurd rfl h
  · obtain ⟨rfl, rfl⟩ := Prod.mk.inj heq
    rfl

theorem scanFrom?_eq_some {negative : Bool} : scanFrom? negative s = some (n, tail) ↔
    ∃ s₁ s₂, whole? s = some (n.whole, s₁) ∧ fraction? s₁ = some (n.fraction, s₂) ∧
      exponent? s₂ = some (n.exponent, tail) ∧ n.negative = negative := by
  simp only [scanFrom?, Option.bind_eq_bind, Option.bind_eq_some_iff]
  constructor
  · rintro ⟨⟨whole, s₁⟩, hwhole, ⟨fraction, s₂⟩, hfraction, ⟨exponent, s₃⟩, hexponent, h⟩
    obtain ⟨rfl, rfl⟩ := Prod.mk.inj (Option.some.inj h)
    exact ⟨s₁, s₂, hwhole, hfraction, hexponent, rfl⟩
  · rintro ⟨s₁, s₂, hwhole, hfraction, hexponent, rfl⟩
    exact ⟨_, hwhole, _, hfraction, _, hexponent, rfl⟩

theorem scanFrom?_append (hrest : Ends rest = true) {negative : Bool}
    (h : scanFrom? negative s = some (n, tail)) :
    scanFrom? negative (s ++ rest) = some (n, tail ++ rest) := by
  obtain ⟨s₁, s₂, hwhole, hfraction, hexponent, hnegative⟩ := scanFrom?_eq_some.mp h
  exact scanFrom?_eq_some.mpr ⟨_, _, whole?_append hrest hwhole, fraction?_append hrest hfraction,
    exponent?_append hrest hexponent, hnegative⟩

theorem head?_cons_ne {d : Char} (h : c ≠ d) (t : List Char) : (c :: t).head? ≠ some d :=
  fun hhead => h (Option.some.inj hhead)

/-- A numeral begins with its sign or a digit. -/
theorem head_of_scan? (h : scan? s = some (n, tail)) :
    ∃ c t, s = c :: t ∧ (c = '-' ∨ isDecimal c = true) := by
  cases s with
  | nil => cases h
  | cons c t =>
    refine ⟨c, t, rfl, ?_⟩
    by_cases hminus : c = '-'
    · exact Or.inl hminus
    · rw [scan?_of_ne (head?_cons_ne hminus t)] at h
      obtain ⟨s₁, -, hwhole, -⟩ := scanFrom?_eq_some.mp h
      rcases whole?_cases hwhole with ⟨hzero, -⟩ | ⟨-, hds, hdigits⟩
      · rw [(List.cons.inj hzero).1]
        exact Or.inr (by decide)
      · refine Or.inr ?_
        rw [digits] at hdigits
        cases hc : decimalDigit? c with
        | none =>
          rw [hc] at hdigits
          exact absurd (Prod.mk.inj hdigits).1.symm hds
        | some d => rw [isDecimal, hc]; rfl

/-- A numeral is scanned alike whatever follows it, as long as that could not go on with it. -/
theorem scan?_append (hrest : Ends rest = true) (h : scan? s = some (n, tail)) :
    scan? (s ++ rest) = some (n, tail ++ rest) := by
  obtain ⟨c, t, rfl, -⟩ := head_of_scan? h
  by_cases hminus : c = '-'
  · subst hminus
    rw [scan?_minus] at h
    rw [List.cons_append, scan?_minus, scanFrom?_append hrest h]
  · rw [scan?_of_ne (head?_cons_ne hminus t)] at h
    rw [List.cons_append, scan?_of_ne (head?_cons_ne hminus (t ++ rest)), ← List.cons_append,
      scanFrom?_append hrest h]

/-! ## Reading -/

/-- The number of a text that is a numeral, if it has a value. -/
def read? (s : List Char) : Option JsonNumber := do
  let (n, rest) ← scan? s
  if rest.isEmpty then n.value? else none

theorem of_read? {x : JsonNumber} (h : read? s = some x) :
    ∃ n, scan? s = some (n, []) ∧ n.value? = some x := by
  simp only [read?, Option.bind_eq_bind, Option.bind_eq_some_iff] at h
  obtain ⟨⟨n, rest⟩, hscan, h⟩ := h
  split at h
  · next hempty => exact ⟨n, List.isEmpty_iff.mp hempty ▸ hscan, h⟩
  · cases h

/-- A number that is read from a text is a token there, whatever ends it. -/
theorem token?_of_read? {x : JsonNumber} (h : read? s = some x) (hrest : Ends rest = true) :
    Json.token? (s ++ rest) = some (.scalar (.num x), rest) := by
  obtain ⟨n, hscan, hvalue⟩ := of_read? h
  have hwhole := scan?_append hrest hscan
  obtain ⟨c, t, rfl, hc⟩ := head_of_scan? hscan
  have hne : ∀ d, d ≠ '-' → isDecimal d = false → c ≠ d := by
    rintro d hminus hd rfl
    rcases hc with hc | hc
    · exact hminus hc
    · exact Bool.false_ne_true (hd.symm.trans hc)
  rw [List.cons_append] at hwhole ⊢
  rw [Json.token?]
  · simp only [hwhole, hvalue, Option.bind_eq_bind, Option.bind_some]
    rfl
  all_goals
    intro _ heq
    exact absurd (List.cons.inj heq).1 (hne _ (by decide) (by decide))

/-! ## Integers -/

/-- Digits that fit are gathered as they are read. -/
theorem gatherWhole_of_readDigits {acc m : Nat}
    (h : readDigits significandBound acc s = .ok m) :
    (digits s).2 = [] ∧ gatherWhole acc 0 (digits s).1 = (m, 0) := by
  induction s generalizing acc with
  | nil =>
    cases h
    exact ⟨rfl, rfl⟩
  | cons c s ih =>
    rw [readDigits] at h
    rw [digits]
    cases hc : decimalDigit? c with
    | none =>
      rw [hc] at h
      cases h
    | some d =>
      rw [hc] at h
      dsimp only at h ⊢
      split at h
      · next hfits =>
        obtain ⟨htail, hgather⟩ := ih h
        refine ⟨htail, ?_⟩
        rw [gatherWhole, if_pos hfits, hgather]
      · cases h

theorem scanFrom?_toString {m : Nat} (hm : m < significandBound) (negative : Bool) :
    ∃ ds, scanFrom? negative (toString m).toList = some (⟨negative, ds, none, none⟩, []) ∧
      gatherWhole 0 0 ds = (m, 0) := by
  obtain ⟨htail, hgather⟩ := gatherWhole_of_readDigits (readDigits_toString hm)
  by_cases hzero : (toString m).toList.head? = some '0'
  · obtain ⟨t, ht⟩ := List.head?_eq_some_iff.mp hzero
    cases t with
    | nil =>
      refine ⟨[0], ?_, ?_⟩
      · rw [ht]
        rfl
      · rw [ht] at hgather
        exact hgather
    | cons c t => exact absurd ht (toString_ne_zero_cons m c t)
  · have hds : (digits (toString m).toList).1 ≠ [] := by
      obtain ⟨c, t, ht⟩ := List.exists_cons_of_ne_nil (toString_ne_nil m)
      have hc : isDecimal c = true := isDecimal_of_mem_toString (ht ▸ List.mem_cons_self)
      obtain ⟨d, hd⟩ := Option.isSome_iff_exists.mp hc
      rw [ht, digits, hd]
      exact List.cons_ne_nil _ _
    refine ⟨_, ?_, hgather⟩
    exact scanFrom?_eq_some.mpr
      ⟨[], [], whole?_of_digits hzero hds (Prod.ext rfl htail), rfl, rfl, rfl⟩

/-- Every integer of 64 bits, with a sign or without, is read back from its text. -/
theorem read?_int {i : Int} (hlow : -0x8000000000000000 ≤ i) (hhigh : i < 0x10000000000000000) :
    read? (Json.numberText (.int i)) = some (.int i) := by
  cases i with
  | ofNat m =>
    have hm : m < significandBound := by
      have hlt : (m : Int) < 0x10000000000000000 := hhigh
      rw [significandBound]
      omega
    obtain ⟨ds, hscan, hgather⟩ := scanFrom?_toString hm false
    have hhead : (toString m).toList.head? ≠ some '-' := by
      intro hhead
      obtain ⟨t, ht⟩ := List.head?_eq_some_iff.mp hhead
      exact absurd (isDecimal_of_mem_toString (ht ▸ List.mem_cons_self)) (by decide)
    have htext : Json.numberText (.int (Int.ofNat m)) = (toString m).toList := rfl
    rw [read?, htext, scan?_of_ne hhead, hscan]
    show value? ⟨false, ds, none, none⟩ = _
    rw [value?, hgather]
    rfl
  | negSucc m =>
    have hm : m + 1 < significandBound := by
      rw [significandBound]
      omega
    obtain ⟨ds, hscan, hgather⟩ := scanFrom?_toString hm true
    have htext : Json.numberText (.int (Int.negSucc m)) = '-' :: (toString (m + 1)).toList := by
      show ("-" ++ toString (m + 1)).toList = _
      rw [String.toList_append]
      rfl
    have hrange : ¬ (m + 1 = 0 ∨ m + 1 > 0x8000000000000000) := by omega
    rw [read?, htext, scan?_minus, hscan]
    show value? ⟨true, ds, none, none⟩ = _
    rw [value?, hgather]
    simp only [Bool.not_true, Bool.false_eq_true, if_false, hrange]
    rfl

end MeshNode.Numeral
