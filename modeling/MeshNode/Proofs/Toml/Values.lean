import MeshNode.Proofs.Text.Cutting
import MeshNode.Proofs.Text.Digits
import MeshNode.Proofs.Toml.Texts
import MeshNode.Toml.Reader

/-!
# Values written and read back

What stands behind the equals sign of an assignment is read back as the value that was
written, up to a character that can only follow a value.

* **words** — `scalar?_append`: a word ends where no word can go on; `ofWord?_toString`: the
  digits of a number are no date and no floating-point number, but that number;
* **fillers** — `dropFiller_firm` and its neighbours: which blanks the reader passes over;
* **arrays** — `itemsIn_itemLines`: the items of an array on lines of their own;
* **all values** — `value?_chars`.
-/

namespace MeshNode.Toml

open MeshNode.Text

variable {c : Char} {s rest : List Char} {n : Nat}

/-- The value that is read where this one was written. -/
def Printable.toToml : Printable → Toml
  | .text s => .text s
  | .number n => .integer n
  | .boolean b => .boolean b
  | .texts items => .array (items.map .text)

/-! ## Numbers -/

theorem valueOf_toString (n : Nat) : valueOf 10 (toString n).toList = n := by
  rw [Nat.toString_eq_repr, Nat.toList_repr, valueOf]
  induction n using Nat.strongRecOn with
  | ind n ih =>
    rcases Nat.lt_or_ge n 10 with hlt | hge
    · simp [Nat.toDigits_of_lt_base hlt, hexDigit?_digitChar (show n < 16 by omega)]
    · have hmod : n % 10 < 16 := by omega
      rw [Nat.toDigits_of_base_le (by omega) hge, List.foldl_append, ih (n / 10) (by omega)]
      simp only [List.foldl_cons, List.foldl_nil, hexDigit?_digitChar hmod, Option.getD_some]
      omega

theorem grouped?_of_forall {digit : Char → Bool} (hne : s ≠ [])
    (hs : ∀ c ∈ s, digit c = true ∧ c ≠ '_') : grouped? digit s = some s := by
  induction s with
  | nil => exact absurd rfl hne
  | cons c s ih =>
    have hc := (hs c List.mem_cons_self).1
    cases s with
    | nil => rw [grouped?, if_pos hc]
    | cons d s =>
      have hd := (hs d (List.mem_cons_of_mem _ List.mem_cons_self)).2
      rw [grouped?, if_pos hc, ih (by simp) fun e he => hs e (List.mem_cons_of_mem _ he)]
      · rfl
      all_goals simp_all

section Decimals

variable (hs : ∀ c ∈ s, isDecimal c = true)
include hs

theorem not_mem_decimals (hc : isDecimal c = false) : c ∉ s := by
  intro hmem
  rw [hs c hmem] at hc
  cases hc

theorem cutSign_decimals : cutSign s = (false, s) := by
  rw [cutSign]
  · rintro rest rfl
    exact not_mem_decimals hs (c := '+') (by decide) List.mem_cons_self
  · rintro rest rfl
    exact not_mem_decimals hs (c := '-') (by decide) List.mem_cons_self

theorem decimal?_decimals (hne : s ≠ []) (hzero : ∀ c t, s ≠ '0' :: c :: t) :
    decimal? s = some s := by
  have hgrouped : grouped? isDecimal s = some s := by
    refine grouped?_of_forall hne fun c hc => ⟨hs c hc, ?_⟩
    rintro rfl
    exact not_mem_decimals hs (by decide) hc
  rw [decimal?, hgrouped]
  simp only [Option.bind_eq_bind, Option.bind_some]

theorem datetime?_decimals : datetime? s = none := by
  have htime : isTime s = false := by
    have hdot : ∀ c ∈ s, (c == '.') = false := by
      intro c hc
      rw [beq_eq_false_iff_ne]
      rintro rfl
      exact not_mem_decimals hs (by decide) hc
    rw [isTime, breakAt_of_forall hdot]
    dsimp only
    rw [splitAt_of_not_mem (not_mem_decimals hs (by decide))]
    rfl
  have hdate : isDate (s.take 10) = false := by
    have hnone : '-' ∉ s.take 10 := fun h =>
      not_mem_decimals hs (by decide) (List.mem_of_mem_take h)
    rw [isDate, splitAt_of_not_mem hnone]
  rw [datetime?, htime, hdate]
  rfl

theorem float?_decimals : float? s = none := by
  have hword : ¬ (s = "inf".toList ∨ s = "nan".toList) := by
    rintro (rfl | rfl)
    · exact not_mem_decimals hs (c := 'n') (by decide) (by decide)
    · exact not_mem_decimals hs (c := 'n') (by decide) (by decide)
  have hpower : ∀ c ∈ s, (c == 'e' || c == 'E') = false := by
    intro c hc
    rw [Bool.or_eq_false_iff, beq_eq_false_iff_ne, beq_eq_false_iff_ne]
    constructor
    · rintro rfl
      exact not_mem_decimals hs (by decide) hc
    · rintro rfl
      exact not_mem_decimals hs (by decide) hc
  have hdot : ∀ c ∈ s, (c == '.') = false := by
    intro c hc
    rw [beq_eq_false_iff_ne]
    rintro rfl
    exact not_mem_decimals hs (by decide) hc
  rw [float?, cutSign_decimals hs]
  dsimp only
  rw [if_neg hword, breakAt_of_forall hpower]
  dsimp only
  rw [breakAt_of_forall hdot]
  rfl

theorem integer?_decimals (hne : s ≠ []) (hzero : ∀ c t, s ≠ '0' :: c :: t) :
    integer? s = fitting? (valueOf 10 s) := by
  rw [integer?]
  · rw [cutSign_decimals hs]
    show (decimal? s).bind _ = _
    rw [decimal?_decimals hs hne hzero, Option.bind_some]
    simp only [Bool.false_eq_true, if_false]
  · exact hzero 'x'
  · exact hzero 'o'
  · exact hzero 'b'

end Decimals

/-- The digits of a number stand for that number. -/
theorem ofWord?_toString (h : n ≤ maxNumber) : ofWord? (toString n).toList = some (.integer n) := by
  have hs : ∀ c ∈ (toString n).toList, isDecimal c = true := fun c => isDecimal_of_mem_toString
  have he : 'e' ∉ (toString n).toList := not_mem_decimals hs (by decide)
  have htrue : (toString n).toList ≠ "true".toList := fun heq => he (heq ▸ by decide)
  have hfalse : (toString n).toList ≠ "false".toList := fun heq => he (heq ▸ by decide)
  have hfits : -0x8000000000000000 ≤ (n : Int) ∧ (n : Int) < 0x8000000000000000 := by
    unfold maxNumber at h
    omega
  rw [ofWord?, if_neg htrue, if_neg hfalse, datetime?_decimals hs, float?_decimals hs,
    integer?_decimals hs (toString_ne_nil n) (toString_ne_zero_cons n), valueOf_toString,
    fitting?, if_pos hfits]
  rfl

/-! ## Words -/

/-- What follows a value: the end of its line, or what ends an item of an array. -/
def EndsValue (rest : List Char) : Prop :=
  ∃ d tail, rest = d :: tail ∧ (d = '\n' ∨ d = ',' ∨ d = ']')

theorem EndsValue.newline (s : List Char) : EndsValue ('\n' :: s) := ⟨_, _, rfl, Or.inl rfl⟩

theorem EndsValue.comma (s : List Char) : EndsValue (',' :: s) := ⟨_, _, rfl, Or.inr (Or.inl rfl)⟩

theorem EndsValue.bracket (s : List Char) : EndsValue (']' :: s) :=
  ⟨_, _, rfl, Or.inr (Or.inr rfl)⟩

theorem EndsValue.endsText (h : EndsValue rest) : EndsText rest := by
  obtain ⟨d, tail, rfl, hd⟩ := h
  rcases hd with rfl | rfl | rfl
  · exact ⟨by simp, by simp⟩
  · exact ⟨by simp, by simp⟩
  · exact ⟨by simp, by simp⟩

/-- A word ends where no word can go on. -/
theorem scalar?_append (hs : ∀ c ∈ s, isWordChar c = true) (hrest : EndsValue rest) {v : Toml}
    (hv : ofWord? s = some v) : scalar? (s ++ rest) = some (v, rest) := by
  obtain ⟨d, tail, rfl, hd⟩ := hrest
  have hnot : ∀ c ∈ s, (! isWordChar c) = false := by
    intro c hc
    rw [hs c hc]
    rfl
  have hend : (d :: tail).head?.all (! isWordChar ·) = true := by
    rcases hd with rfl | rfl | rfl
    · rfl
    · rfl
    · rfl
  have hspace : d ≠ ' ' := by
    rcases hd with rfl | rfl | rfl
    · decide
    · decide
    · decide
  have hcut : cutWord (s ++ d :: tail) = (s, d :: tail) := by
    rw [cutWord, breakAt_append hnot hend]
    dsimp only
    split
    · next heq => exact absurd (List.cons.inj heq).1 hspace
    · rfl
  rw [scalar?, hcut]
  dsimp only
  rw [hv]
  rfl

theorem valueIn_text (hrest : EndsValue rest) (depth fuel : Nat) (t : String) :
    valueIn depth (fuel + 1) (textChars t ++ rest) = some (.text t, rest) := by
  have hread := text?_textChars hrest.endsText t
  obtain ⟨d, w, hw, hd⟩ := textChars_cons t
  rw [hw, List.cons_append] at hread ⊢
  rcases hd with rfl | rfl
  · rw [valueIn, hread]
    rfl
  · rw [valueIn, hread]
    rfl

/-- What begins with a character of a word is read as a word. -/
theorem valueIn_word (hne : s ≠ []) (hs : ∀ c ∈ s, isWordChar c = true) (hrest : EndsValue rest)
    {v : Toml} (hv : ofWord? s = some v) (depth fuel : Nat) :
    valueIn depth (fuel + 1) (s ++ rest) = some (v, rest) := by
  have hread := scalar?_append hs hrest hv
  cases s with
  | nil => exact absurd rfl hne
  | cons c s =>
    have hc := hs c List.mem_cons_self
    rw [List.cons_append] at hread ⊢
    rw [valueIn]
    · exact hread
    all_goals
      rintro tail heq
      obtain ⟨rfl, -⟩ := List.cons.inj heq
      exact absurd hc (by decide)

/-! ## Fillers -/

/-- A character that begins neither a blank, a comment nor a line end. -/
def IsFirm (c : Char) : Prop := isSpace c = false ∧ c ≠ '#' ∧ c ≠ '\n' ∧ c ≠ '\r'

theorem isFirm_of_class {p : Char → Bool} (hp : [' ', '\t', '#', '\n', '\r'].all (! p ·) = true)
    (h : p c = true) : IsFirm c := by
  have hne : ∀ d ∈ [' ', '\t', '#', '\n', '\r'], c ≠ d := by
    rintro d hd rfl
    have hnot := List.all_eq_true.mp hp c hd
    rw [h] at hnot
    cases hnot
  refine ⟨?_, hne _ (by simp), hne _ (by simp), hne _ (by simp)⟩
  rw [isSpace, Bool.or_eq_false_iff, beq_eq_false_iff_ne, beq_eq_false_iff_ne]
  exact ⟨hne _ (by simp), hne _ (by simp)⟩

theorem dropSpace_firm (hc : IsFirm c) (s : List Char) : dropSpace (c :: s) = c :: s := by
  rw [dropSpace, List.dropWhile_cons_of_neg]
  rw [hc.1]
  exact Bool.false_ne_true

theorem dropComment_firm (hc : IsFirm c) (s : List Char) : dropComment (c :: s) = c :: s := by
  rw [dropComment]
  rintro rest heq
  exact hc.2.1 (List.cons.inj heq).1

/-- The reader stops at a firm character, behind any blanks. -/
theorem dropFiller_of_dropSpace {t : List Char} (ht : dropSpace t = c :: s) (hc : IsFirm c)
    (fuel : Nat) : dropFiller (fuel + 1) t = c :: s := by
  have hcomment := dropComment_firm hc s
  obtain ⟨-, -, hnewline, hreturn⟩ := hc
  rw [dropFiller, ht, hcomment]
  split
  · next heq => exact absurd (List.cons.inj heq).1 hnewline
  · next heq => exact absurd (List.cons.inj heq).1 hreturn
  · rfl

theorem dropFiller_firm (hc : IsFirm c) (fuel : Nat) : dropFiller fuel (c :: s) = c :: s := by
  cases fuel with
  | zero => rfl
  | succ fuel => exact dropFiller_of_dropSpace (dropSpace_firm hc s) hc fuel

/-- A written text begins with a firm character that closes no array. -/
theorem textChars_firm (t : String) :
    ∃ d w, textChars t = d :: w ∧ IsFirm d ∧ d ≠ ']' := by
  obtain ⟨d, w, hw, hd⟩ := textChars_cons t
  refine ⟨d, w, hw, ?_⟩
  rcases hd with rfl | rfl
  · exact ⟨⟨rfl, by decide, by decide, by decide⟩, by decide⟩
  · exact ⟨⟨rfl, by decide, by decide, by decide⟩, by decide⟩

/-! ## Arrays -/

theorem itemsIn_comma (t : String) (rest : List Char) {s : List Char}
    (hs : dropFiller s.length s = textChars t ++ ',' :: rest) (depth fuel : Nat) :
    itemsIn depth (fuel + 2) s =
      (itemsIn depth (fuel + 1) rest).map fun (items, rest) => (.text t :: items, rest) := by
  have hitem := valueIn_text (.comma rest) depth fuel t
  obtain ⟨d, w, hw, -, hd⟩ := textChars_firm t
  rw [hw, List.cons_append] at hs hitem
  rw [itemsIn, hs]
  split
  · next heq => exact absurd (List.cons.inj heq).1 hd
  · rw [hitem]
    show (itemsIn depth (fuel + 1) rest).bind _ = _
    cases itemsIn depth (fuel + 1) rest with
    | none => rfl
    | some read => rfl

theorem itemsIn_last {t : String} {s : List Char}
    (hs : dropFiller s.length s = textChars t ++ ']' :: rest) (depth fuel : Nat) :
    itemsIn depth (fuel + 2) s = some ([.text t], rest) := by
  have hitem := valueIn_text (.bracket rest) depth fuel t
  obtain ⟨d, w, hw, -, hd⟩ := textChars_firm t
  rw [hw, List.cons_append] at hs hitem
  rw [itemsIn, hs]
  split
  · next heq => exact absurd (List.cons.inj heq).1 hd
  · rw [hitem]
    rfl

/-- The items of an array on lines of their own. -/
theorem itemsIn_itemLines (items : List String) (depth : Nat) {fuel : Nat}
    (hfuel : items.length < fuel) :
    itemsIn depth fuel ('\n' :: (items.flatMap itemLine ++ ']' :: rest)) =
      some (items.map .text, rest) := by
  induction items generalizing fuel with
  | nil =>
    -- what is left behind the last comma is the closing bracket
    obtain ⟨fuel, rfl⟩ : ∃ k, fuel = k + 1 := ⟨fuel - 1, by omega⟩
    rfl
  | cons t items ih =>
    rw [List.length_cons] at hfuel
    obtain ⟨fuel, rfl⟩ : ∃ k, fuel = k + 2 := ⟨fuel - 2, by omega⟩
    obtain ⟨d, w, hw, hfirm, -⟩ := textChars_firm t
    rw [itemsIn_comma t ('\n' :: (items.flatMap itemLine ++ ']' :: rest)), ih (by omega)]
    · rfl
    · simp only [itemLine, List.flatMap_cons, List.append_assoc, List.cons_append,
        List.nil_append, hw]
      exact dropFiller_of_dropSpace (dropSpace_firm hfirm _) hfirm _

/-! ## All values -/

theorem length_le_itemLines (items : List String) :
    items.length ≤ (items.flatMap itemLine).length := by
  induction items with
  | nil => exact Nat.le_refl 0
  | cons t items ih =>
    have hline : 0 < (itemLine t).length := Nat.succ_pos _
    rw [List.flatMap_cons, List.length_append, List.length_cons]
    omega

theorem isWordChar_of_mem_toString (h : c ∈ (toString n).toList) : isWordChar c = true := by
  have hall : ∀ d : Fin 10, isWordChar d.val.digitChar = true := by decide
  rw [Nat.toString_eq_repr, Nat.toList_repr] at h
  obtain ⟨d, hd, rfl⟩ := exists_digit_of_mem_toDigits (by omega) h
  exact hall ⟨d, hd⟩

theorem valueIn_array {s : List Char} {items : List Toml} {fuel : Nat}
    (h : itemsIn 1 fuel s = some (items, rest)) :
    valueIn 0 (fuel + 1) ('[' :: s) = some (.array items, rest) := by
  rw [valueIn, if_pos (by decide), h]
  rfl

/-- A written value is read back as the value that it was. -/
theorem value?_chars {v : Printable} {s : List Char} (hv : v.chars? = some s)
    (hrest : EndsValue rest) : value? (s ++ rest) = some (v.toToml, rest) := by
  unfold value?
  unfold Printable.chars? at hv
  split at hv
  · next t =>
    cases hv
    exact valueIn_text hrest 0 _ t
  · next n =>
    split at hv
    · next hn =>
      cases hv
      have hword : ∀ c ∈ (toString n).toList, isWordChar c = true :=
        fun c => isWordChar_of_mem_toString
      exact valueIn_word (toString_ne_nil n) hword hrest (ofWord?_toString hn) 0 _
    · cases hv
  · next b =>
    cases hv
    have hfalse : ∀ c ∈ "false".toList, isWordChar c = true := List.all_eq_true.mp (by decide)
    have htrue : ∀ c ∈ "true".toList, isWordChar c = true := List.all_eq_true.mp (by decide)
    cases b
    · exact valueIn_word (by decide) hfalse hrest rfl 0 _
    · exact valueIn_word (by decide) htrue hrest rfl 0 _
  · cases hv
    have hnone : itemsIn 1 (rest.length + 2) (']' :: rest) = some ([], rest) := rfl
    exact valueIn_array hnone
  · next t =>
    cases hv
    obtain ⟨d, w, hw, hfirm, -⟩ := textChars_firm t
    have hfiller : dropFiller (textChars t ++ ']' :: rest).length (textChars t ++ ']' :: rest) =
        textChars t ++ ']' :: rest := by
      rw [hw]
      exact dropFiller_firm hfirm _
    rw [List.cons_append, List.cons_append, List.append_assoc, List.singleton_append,
      List.length_cons, List.length_append, List.length_cons]
    exact valueIn_array (itemsIn_last hfiller 1 _)
  · next items _ _ =>
    cases hv
    have hlength := length_le_itemLines items
    rw [List.append_assoc, List.append_assoc, List.singleton_append]
    refine valueIn_array (itemsIn_itemLines items 1 ?_)
    simp only [List.length_append, List.length_cons]
    omega

end MeshNode.Toml
