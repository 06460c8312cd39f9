import MeshNode.Proofs.Text.Digits
import MeshNode.Toml.Printer
import MeshNode.Toml.Text

/-!
# Texts written and read back

A text is written in the plainest form that holds it. Whatever stands in it, the reader gives
it back and stops behind the closing mark, provided that no further mark follows there.

* **characters** — `Spelled`: the three ways in which a character may stand in a basic text;
* **the four forms** — `basic_flatMap`, `literal_append`, `basicLines_append` and
  `literalLines_append`;
* **the chosen form** — `text?_textChars`.
-/

namespace MeshNode.Toml

open MeshNode.Text

variable {c : Char} {s w rest : List Char} {k : Nat}

/-! ## Characters -/

/-- The ways to write a character in a basic text. -/
inductive Spelled (c : Char) : List Char → Prop
  | plain : c ≠ '"' → c ≠ '\\' → isPrintable c = true → Spelled c [c]
  | escape {e : Char} : escaped? e = some c → Spelled c ['\\', e]
  | numbered {x y z w : Char} : scalarValue? [x, y, z, w] = some c →
    Spelled c ['\\', 'u', x, y, z, w]

theorem scalarValue?_control {n : Nat} (h : n < 0x80) :
    scalarValue? ['0', '0', hexCharUpper (n / 16), hexCharUpper (n % 16)] =
      some (Char.ofNat n) := by
  have hzero : hexDigit? '0' = some 0 := by decide
  have hvalue : n / 16 * 16 + n % 16 = n := by omega
  have hsmall : n < 0xd800 := by omega
  simp [scalarValue?, hzero, hexDigit?_hexCharUpper (show n / 16 < 16 by omega),
    hexDigit?_hexCharUpper (show n % 16 < 16 by omega), hvalue, hsmall]

theorem spelled_escapeChar (h : c ≠ '"') : Spelled c (escapeChar c) := by
  unfold escapeChar
  split
  · exact .escape rfl
  · exact .escape rfl
  · exact .escape rfl
  · exact .escape rfl
  · exact .escape rfl
  · next hback =>
    split
    · next hcontrol =>
      rw [Bool.or_eq_true, decide_eq_true_eq, beq_iff_eq] at hcontrol
      refine .numbered ?_
      rw [scalarValue?_control (by omega), Char.ofNat_toNat]
    · next hcontrol =>
      simp only [Bool.or_eq_true, decide_eq_true_eq, beq_iff_eq, not_or] at hcontrol
      refine .plain h hback ?_
      simp only [isPrintable, Bool.or_eq_true, Bool.and_eq_true, decide_eq_true_eq]
      exact Or.inr ⟨by omega, hcontrol.2⟩

theorem spelled_basicChar (c : Char) : Spelled c (basicChar c) := by
  unfold basicChar
  split
  · next h =>
    subst h
    exact .escape rfl
  · next hquote =>
    split
    · next h =>
      subst h
      exact .escape rfl
    · exact spelled_escapeChar hquote

theorem ne_of_isPrintable (h : isPrintable c = true) : c ≠ '\n' ∧ c ≠ '\r' := by
  constructor
  · rintro rfl
    exact absurd h (by decide)
  · rintro rfl
    exact absurd h (by decide)

theorem Spelled.exists_cons (h : Spelled c w) :
    ∃ d w', w = d :: w' ∧ d ≠ '"' ∧ d ≠ '\n' ∧ d ≠ '\r' := by
  cases h with
  | plain hquote _ hprint => exact ⟨c, [], rfl, hquote, ne_of_isPrintable hprint⟩
  | escape _ => exact ⟨_, _, rfl, by decide⟩
  | numbered _ => exact ⟨_, _, rfl, by decide⟩

theorem ne_of_escaped? {e : Char} (h : escaped? e = some c) : e ≠ 'u' ∧ e ≠ 'U' := by
  constructor
  · rintro rfl
    cases h
  · rintro rfl
    cases h

theorem basic_spelled (h : Spelled c w) (acc rest : List Char) :
    basic acc (w ++ rest) = basic (c :: acc) rest := by
  cases h with
  | plain hquote hback hprint =>
    rw [List.singleton_append, basic]
    · rw [if_pos ⟨hback, hprint⟩]
    all_goals simp_all
  | @escape e he =>
    obtain ⟨hu, hU⟩ := ne_of_escaped? he
    show basic acc ('\\' :: e :: rest) = _
    rw [basic]
    · rw [he]
    all_goals simp_all
  | numbered hvalue =>
    show basic acc ('\\' :: 'u' :: _ :: _ :: _ :: _ :: rest) = _
    rw [basic, hvalue]

theorem basicLines_spelled (h : Spelled c w) (acc rest : List Char) :
    basicLines false acc (w ++ rest) = basicLines false (c :: acc) rest := by
  cases h with
  | plain hquote hback hprint =>
    have hreturn := (ne_of_isPrintable hprint).2
    rw [List.singleton_append, basicLines]
    · simp [hback, hprint]
    all_goals simp_all
  | @escape e he =>
    obtain ⟨hu, hU⟩ := ne_of_escaped? he
    show basicLines false acc ('\\' :: e :: rest) = _
    rw [basicLines]
    · rw [he]
    all_goals simp_all
  | numbered hvalue =>
    show basicLines false acc ('\\' :: 'u' :: _ :: _ :: _ :: _ :: rest) = _
    rw [basicLines, hvalue]

/-! ## One line -/

theorem basic_flatMap (s acc rest : List Char) :
    basic acc (s.flatMap basicChar ++ '"' :: rest) =
      some (String.ofList (acc.reverse ++ s), rest) := by
  induction s generalizing acc with
  | nil => simp [basic, gathered]
  | cons c s ih =>
    rw [List.flatMap_cons, List.append_assoc, basic_spelled (spelled_basicChar c), ih]
    simp

theorem literal_append (hs : ∀ c ∈ s, c ≠ '\x27' ∧ isPrintable c = true) (acc rest : List Char) :
    literal acc (s ++ '\x27' :: rest) = some (String.ofList (acc.reverse ++ s), rest) := by
  induction s generalizing acc with
  | nil => simp [literal, gathered]
  | cons c s ih =>
    obtain ⟨hmark, hprint⟩ := hs c List.mem_cons_self
    rw [List.cons_append, literal, if_pos hprint, ih fun d hd => hs d (List.mem_cons_of_mem _ hd)]
    · simp
    · exact hmark

/-! ## Several lines -/

/-- Up to two marks before the closing ones belong to the text. -/
theorem closeLines_replicate {mark : Char} (hk : k ≤ 2) (hrest : rest.head? ≠ some mark)
    (acc : List Char) : closeLines mark acc (List.replicate k mark ++ rest) =
      some (String.ofList (acc.reverse ++ List.replicate k mark), rest) := by
  have hfirst : ∀ d rest', rest = d :: rest' → d ≠ mark := by
    rintro d rest' rfl rfl
    exact hrest rfl
  obtain rfl | rfl | rfl : k = 0 ∨ k = 1 ∨ k = 2 := by omega
  · rcases rest with _ | ⟨a, _ | ⟨b, rest⟩⟩
    · simp [closeLines, gathered]
    · simp [closeLines, gathered, hfirst a [] rfl]
    · simp [closeLines, gathered, hfirst a (b :: rest) rfl]
  · rcases rest with _ | ⟨a, rest⟩
    · simp [closeLines, gathered]
    · simp [closeLines, gathered, hfirst a rest rfl]
  · simp [closeLines, gathered]

/-- A mark that no two further marks follow is a character of the text. -/
theorem basicLines_quote (h : ∀ rest, s ≠ '"' :: '"' :: rest) (acc : List Char) :
    basicLines false acc ('"' :: s) = basicLines false ('"' :: acc) s := by
  rw [basicLines]
  · simp [isPrintable]
  all_goals simp_all

theorem basicLines_newline (acc s : List Char) :
    basicLines false acc ('\n' :: s) = basicLines false ('\n' :: acc) s := by
  simp [basicLines]

theorem basicLines_close (hk : k ≤ 2) (hrest : rest.head? ≠ some '"') (acc : List Char) :
    basicLines false acc ('"' :: '"' :: '"' :: (List.replicate k '"' ++ rest)) =
      some (String.ofList (acc.reverse ++ List.replicate k '"'), rest) := by
  rw [basicLines, closeLines_replicate hk hrest]

/-- A character other than a quote is read back from what stands for it. -/
theorem basicLinesChars_cons (h : c ≠ '"') (run : Nat) (s : List Char) :
    ∃ d w, basicLinesChars run (c :: s) = d :: w ++ basicLinesChars 0 s ∧ d ≠ '"' ∧
      ∀ acc rest, basicLines false acc (d :: w ++ rest) = basicLines false (c :: acc) rest := by
  by_cases hnewline : c = '\n'
  · subst hnewline
    exact ⟨'\n', [], rfl, by decide, fun acc rest => basicLines_newline acc rest⟩
  · have hchars : basicLinesChars run (c :: s) = escapeChar c ++ basicLinesChars 0 s := by
      rw [basicLinesChars]
      · exact h
      · exact hnewline
    have hspelled := spelled_escapeChar h
    obtain ⟨d, w, hw, hquote, -⟩ := hspelled.exists_cons
    rw [hw] at hchars hspelled
    exact ⟨d, w, hchars, hquote, basicLines_spelled hspelled⟩

/-- Where what is written begins with a quote, the text has ended or begins with one. -/
theorem quote_first {run : Nat} {t : List Char} (h : basicLinesChars run s ++ w = '"' :: t) :
    s = [] ∨ ∃ s', s = '"' :: s' ∧ run ≠ 2 ∧ t = basicLinesChars (run + 1) s' ++ w := by
  cases s with
  | nil => exact Or.inl rfl
  | cons c s =>
    right
    by_cases hc : c = '"'
    · subst hc
      rw [basicLinesChars] at h
      split at h
      · exact absurd (List.cons.inj h).1 (by decide)
      · next hrun => exact ⟨s, rfl, hrun, (List.cons.inj h).2.symm⟩
    · obtain ⟨d, w', hchars, hd, -⟩ := basicLinesChars_cons hc run s
      rw [hchars] at h
      exact absurd (List.cons.inj h).1 hd

theorem basicLines_append (hrest : rest.head? ≠ some '"') {run : Nat} (hrun : run ≤ 2)
    (s acc : List Char) :
    basicLines false acc (basicLinesChars run s ++ '"' :: '"' :: '"' :: rest) =
      some (String.ofList (acc.reverse ++ s), rest) := by
  -- `run` quotes were written as they are just before, so at most `2 - run` more of them stand
  -- before the closing marks
  induction s generalizing run acc with
  | nil => exact basicLines_close (k := 0) (by omega) hrest acc
  | cons c s ih =>
    by_cases hc : c = '"'
    · subst hc
      rw [basicLinesChars]
      split
      · have hspelled : Spelled '"' ['\\', '"'] := .escape rfl
        show basicLines false acc (['\\', '"'] ++ (basicLinesChars 0 s ++ _)) = _
        rw [basicLines_spelled hspelled, ih (by omega)]
        simp
      · next hrun2 =>
        show basicLines false acc ('"' :: (basicLinesChars (run + 1) s ++ _)) = _
        by_cases htwo : ∃ t,
            basicLinesChars (run + 1) s ++ '"' :: '"' :: '"' :: rest = '"' :: '"' :: t
        · -- the quotes before the closing mark end the text
          obtain ⟨t, ht⟩ := htwo
          rcases quote_first ht with rfl | ⟨s', rfl, hrun1, ht⟩
          · exact basicLines_close (k := 1) (by omega) hrest acc
          · rcases quote_first ht.symm with rfl | ⟨s'', -, hrun0, -⟩
            · have hzero : run = 0 := by omega
              subst hzero
              exact basicLines_close (k := 2) (by omega) hrest acc
            · omega
        · rw [basicLines_quote (fun t ht => htwo ⟨t, ht⟩), ih (by omega)]
          simp
    · obtain ⟨d, w, hchars, -, hread⟩ := basicLinesChars_cons hc run s
      rw [hchars, List.append_assoc, hread, ih (by omega)]
      simp

theorem literalLines_close (hk : k ≤ 2) (hrest : rest.head? ≠ some '\x27') (acc : List Char) :
    literalLines acc ('\x27' :: '\x27' :: '\x27' :: (List.replicate k '\x27' ++ rest)) =
      some (String.ofList (acc.reverse ++ List.replicate k '\x27'), rest) := by
  rw [literalLines, closeLines_replicate hk hrest]

theorem literalLines_mark (h : ∀ rest, s ≠ '\x27' :: '\x27' :: rest) (acc : List Char) :
    literalLines acc ('\x27' :: s) = literalLines ('\x27' :: acc) s := by
  rw [literalLines]
  · simp [isPrintable]
  all_goals simp_all

theorem printable_of_not_isControl (h : isControl c = false) : c = '\n' ∨ isPrintable c = true := by
  by_cases hnewline : c = '\n'
  · exact Or.inl hnewline
  · right
    simp only [isControl, Bool.or_eq_false_iff, Bool.and_eq_false_iff, decide_eq_false_iff_not,
      bne_eq_false_iff_eq, beq_eq_false_iff_ne] at h
    simp only [isPrintable, Bool.or_eq_true, beq_iff_eq, Bool.and_eq_true, decide_eq_true_eq]
    rcases h with ⟨(hlow | htab) | hnl, hdel⟩
    · exact Or.inr ⟨by omega, hdel⟩
    · exact Or.inl htab
    · exact absurd hnl hnewline

theorem literalLines_cons (hmark : c ≠ '\x27') (h : isControl c = false) (acc s : List Char) :
    literalLines acc (c :: s) = literalLines (c :: acc) s := by
  have hreturn : c ≠ '\r' := by
    rintro rfl
    exact absurd h (by decide)
  rw [literalLines, if_pos (printable_of_not_isControl h)]
  · simp_all
  · simp_all

theorem hasRunOfThree_cons {mark : Char} (h : hasRunOfThree mark (c :: s) = false) :
    hasRunOfThree mark s = false := by
  rcases s with _ | ⟨a, _ | ⟨b, s⟩⟩
  · rfl
  · rfl
  · rw [hasRunOfThree, Bool.or_eq_false_iff] at h
    exact h.2

theorem literalLines_append (hrest : rest.head? ≠ some '\x27') {s : List Char}
    (hs : ∀ c ∈ s, isControl c = false) (hrun : hasRunOfThree '\x27' s = false) (acc : List Char) :
    literalLines acc (s ++ '\x27' :: '\x27' :: '\x27' :: rest) =
      some (String.ofList (acc.reverse ++ s), rest) := by
  induction s generalizing acc with
  | nil => exact literalLines_close (k := 0) (by omega) hrest acc
  | cons c s ih =>
    have ih := ih (fun d hd => hs d (List.mem_cons_of_mem _ hd)) (hasRunOfThree_cons hrun)
    by_cases hc : c = '\x27'
    · subst hc
      rcases s with _ | ⟨a, _ | ⟨b, s⟩⟩
      · exact literalLines_close (k := 1) (by omega) hrest acc
      · by_cases ha : a = '\x27'
        · subst ha
          exact literalLines_close (k := 2) (by omega) hrest acc
        · rw [List.cons_append, literalLines_mark (by simp [ha]), ih]
          simp
      · -- with this mark two more would make a run of three
        have htwo : ∀ t,
            a :: b :: s ++ '\x27' :: '\x27' :: '\x27' :: rest ≠ '\x27' :: '\x27' :: t := by
          intro t ht
          cases ht
          simp [hasRunOfThree] at hrun
        rw [List.cons_append, literalLines_mark htwo, ih]
        simp
    · rw [List.cons_append, literalLines_cons hc (hs c List.mem_cons_self), ih]
      simp

/-! ## The chosen form -/

theorem dropLineEnd_of_ne {d : Char} (hnewline : d ≠ '\n') (hreturn : d ≠ '\r') (s : List Char) :
    dropLineEnd (d :: s) = d :: s := by
  rw [dropLineEnd]
  all_goals simp_all

/-- A text on several lines begins behind the line end that follows its opening mark. -/
theorem dropLineEnd_openingNewline (h : '\n' ∉ s → dropLineEnd w = w) :
    dropLineEnd (openingNewline s ++ w) = w := by
  unfold openingNewline
  split
  · rfl
  · next hnone =>
    rw [List.nil_append]
    exact h fun hmem => hnone (List.contains_iff_mem.mpr hmem)

/-- No further mark of either kind follows a text. -/
def EndsText (rest : List Char) : Prop := rest.head? ≠ some '"' ∧ rest.head? ≠ some '\x27'

theorem text?_basic (hrest : EndsText rest) (s : List Char) :
    text? (textIn .basic s ++ rest) = some (String.ofList s, rest) := by
  have hread := basic_flatMap s [] rest
  have happend : textIn .basic s ++ rest = '"' :: (s.flatMap basicChar ++ '"' :: rest) := by
    simp [textIn]
  rw [happend]
  cases s with
  | nil =>
    obtain ⟨hquote, -⟩ := hrest
    cases rest with
    | nil => rfl
    | cons d rest =>
      have hd : d ≠ '"' := fun h => hquote (congrArg some h)
      show text? ('"' :: '"' :: d :: rest) = _
      rw [text?]
      · exact hread
      · simp [hd]
  | cons c s =>
    obtain ⟨d, w, hw, hd, -⟩ := (spelled_basicChar c).exists_cons
    rw [List.flatMap_cons, hw] at hread ⊢
    show text? ('"' :: d :: _) = _
    rw [text?]
    · exact hread
    · simp [hd]

theorem text?_literal (hrest : EndsText rest) {s : List Char}
    (hs : ∀ c ∈ s, c ≠ '\x27' ∧ isPrintable c = true) :
    text? (textIn .literal s ++ rest) = some (String.ofList s, rest) := by
  have hread := literal_append hs [] rest
  have happend : textIn .literal s ++ rest = '\x27' :: (s ++ '\x27' :: rest) := by
    simp [textIn]
  rw [happend]
  cases s with
  | nil =>
    obtain ⟨-, hmark⟩ := hrest
    cases rest with
    | nil => rfl
    | cons d rest =>
      have hd : d ≠ '\x27' := fun h => hmark (congrArg some h)
      show text? ('\x27' :: '\x27' :: d :: rest) = _
      rw [text?]
      · exact hread
      · simp [hd]
  | cons c s =>
    have hc := (hs c List.mem_cons_self).1
    show text? ('\x27' :: c :: _) = _
    rw [text?]
    · exact hread
    · simp [hc]

theorem dropLineEnd_basicLinesChars (h : '\n' ∉ s) (w : List Char) :
    dropLineEnd (basicLinesChars 0 s ++ '"' :: w) = basicLinesChars 0 s ++ '"' :: w := by
  cases s with
  | nil => exact dropLineEnd_of_ne (by decide) (by decide) w
  | cons c s =>
    rw [List.mem_cons, not_or] at h
    by_cases hc : c = '"'
    · subst hc
      exact dropLineEnd_of_ne (by decide) (by decide) _
    · have hchars : basicLinesChars 0 (c :: s) = escapeChar c ++ basicLinesChars 0 s := by
        rw [basicLinesChars]
        · exact hc
        · exact Ne.symm h.1
      obtain ⟨d, w', hw, -, hnewline, hreturn⟩ := (spelled_escapeChar hc).exists_cons
      rw [hchars, hw]
      exact dropLineEnd_of_ne hnewline hreturn _

theorem text?_basicLines (hrest : EndsText rest) (s : List Char) :
    text? (textIn .basicLines s ++ rest) = some (String.ofList s, rest) := by
  have happend : textIn .basicLines s ++ rest = '"' :: '"' :: '"' ::
      (openingNewline s ++ (basicLinesChars 0 s ++ '"' :: '"' :: '"' :: rest)) := by
    simp [textIn]
  rw [happend, text?, dropLineEnd_openingNewline fun h => dropLineEnd_basicLinesChars h _]
  exact basicLines_append hrest.1 (by omega) s []

theorem text?_literalLines (hrest : EndsText rest) {s : List Char}
    (hs : ∀ c ∈ s, isControl c = false) (hrun : hasRunOfThree '\x27' s = false) :
    text? (textIn .literalLines s ++ rest) = some (String.ofList s, rest) := by
  have happend : textIn .literalLines s ++ rest = '\x27' :: '\x27' :: '\x27' ::
      (openingNewline s ++ (s ++ '\x27' :: '\x27' :: '\x27' :: rest)) := by
    simp [textIn]
  rw [happend, text?, dropLineEnd_openingNewline fun h => ?_]
  · exact literalLines_append hrest.2 hs hrun []
  · cases s with
    | nil => exact dropLineEnd_of_ne (by decide) (by decide) _
    | cons c s =>
      have hreturn : c ≠ '\r' := by
        rintro rfl
        exact absurd (hs '\r' List.mem_cons_self) (by decide)
      refine dropLineEnd_of_ne ?_ hreturn _
      rintro rfl
      exact h List.mem_cons_self

/-- What the choice of a form promises about the text. -/
theorem formOf_spec (s : List Char) :
    (formOf s = .literal → ∀ c ∈ s, c ≠ '\x27' ∧ isPrintable c = true) ∧
      (formOf s = .literalLines →
        (∀ c ∈ s, isControl c = false) ∧ hasRunOfThree '\x27' s = false) := by
  have hcontrol : (!s.any isControl) = true → ∀ c ∈ s, isControl c = false := by
    intro h c hc
    rw [Bool.not_eq_true', List.any_eq_false] at h
    exact Bool.eq_false_iff.mpr (h c hc)
  have hnot : ∀ d : Char, (!s.contains d) = true → ∀ c ∈ s, c ≠ d := by
    intro d h c hc heq
    rw [Bool.not_eq_true', ← Bool.not_eq_true, List.contains_iff_mem] at h
    exact h (heq ▸ hc)
  unfold formOf
  dsimp only
  split
  · exact ⟨nofun, nofun⟩
  · split
    · next h =>
      rw [Bool.and_eq_true, Bool.and_eq_true] at h
      refine ⟨fun _ c hc => ⟨hnot _ h.2 c hc, ?_⟩, nofun⟩
      rcases printable_of_not_isControl (hcontrol h.1.1 c hc) with hnewline | hprint
      · exact absurd hnewline (hnot _ h.1.2 c hc)
      · exact hprint
    · split
      · exact ⟨nofun, nofun⟩
      · split
        · next h =>
          rw [Bool.and_eq_true, Bool.not_eq_true' (hasRunOfThree _ _)] at h
          exact ⟨nofun, fun _ => ⟨hcontrol h.1, h.2⟩⟩
        · split
          · exact ⟨nofun, nofun⟩
          · exact ⟨nofun, nofun⟩

/-- A text is read back, whichever form it is written in. -/
theorem text?_textChars (hrest : EndsText rest) (s : String) :
    text? (textChars s ++ rest) = some (s, rest) := by
  obtain ⟨hliteral, hlines⟩ := formOf_spec s.toList
  have hread : text? (textIn (formOf s.toList) s.toList ++ rest) =
      some (String.ofList s.toList, rest) := by
    cases hform : formOf s.toList with
    | basic => exact text?_basic hrest s.toList
    | literal => exact text?_literal hrest (hliteral hform)
    | basicLines => exact text?_basicLines hrest s.toList
    | literalLines => exact text?_literalLines hrest (hlines hform).1 (hlines hform).2
  rw [String.ofList_toList] at hread
  exact hread

/-- A written text begins with a mark. -/
theorem textChars_cons (s : String) :
    ∃ d w, textChars s = d :: w ∧ (d = '"' ∨ d = '\x27') := by
  unfold textChars
  cases formOf s.toList with
  | basic => exact ⟨'"', _, rfl, Or.inl rfl⟩
  | literal => exact ⟨'\x27', _, rfl, Or.inr rfl⟩
  | basicLines => exact ⟨'"', _, rfl, Or.inl rfl⟩
  | literalLines => exact ⟨'\x27', _, rfl, Or.inr rfl⟩

end MeshNode.Toml
