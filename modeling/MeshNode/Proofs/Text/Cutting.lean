import MeshNode.Text.Blank
import MeshNode.Text.Lines

/-!
# Cutting text

Each way to cut a text undoes a way to put one together, as long as the parts hold
none of the characters that it cuts at.

* **pieces** — `splitAt_append`, `splitAt_append_sep`, `splitAt_intercalate`; `length_splitAt`: how
  many there are; `sublist_of_mem_splitAt`, `not_mem_of_mem_splitAt`, `mem_intercalate`: what they
  hold;
* **one cut** — `breakAt_append`, `breakAt_append_of_forall`, `breakAt_of_forall`,
  `splitFirst?_eq_none`, `splitFirst?_append`, `splitLast?_eq_none`, `splitLast?_append`;
* **trimming** — `trim_append`, `trim_surrounded`.
-/

namespace MeshNode.Text

variable {p : Char → Bool} {sep : Char} {s t : List Char}

/-! ## Pieces -/

theorem splitAt_cons_of_ne {c : Char} (h : c ≠ sep) {piece : List Char} {pieces : List (List Char)}
    (hs : splitAt sep s = piece :: pieces) :
    splitAt sep (c :: s) = (c :: piece) :: pieces := by
  rw [splitAt, if_neg h, hs]

theorem splitAt_of_not_mem (h : sep ∉ s) : splitAt sep s = [s] := by
  induction s with
  | nil => rfl
  | cons c s ih =>
    rw [List.mem_cons, not_or] at h
    exact splitAt_cons_of_ne (Ne.symm h.1) (ih h.2)

theorem splitAt_append (h : sep ∉ s) (t : List Char) :
    splitAt sep (s ++ sep :: t) = s :: splitAt sep t := by
  induction s with
  | nil => rw [List.nil_append, splitAt, if_pos rfl]
  | cons c s ih =>
    rw [List.mem_cons, not_or] at h
    exact splitAt_cons_of_ne (Ne.symm h.1) (ih h.2)

theorem splitAt_ne_nil (sep : Char) (s : List Char) : splitAt sep s ≠ [] := by
  cases s with
  | nil => exact List.cons_ne_nil _ _
  | cons c s =>
    rw [splitAt]
    split
    · exact List.cons_ne_nil _ _
    · split <;> exact List.cons_ne_nil _ _

/-- Behind a separator the pieces are those of what follows it. -/
theorem splitAt_append_sep (sep : Char) (s t : List Char) :
    splitAt sep (s ++ sep :: t) = splitAt sep s ++ splitAt sep t := by
  induction s with
  | nil => exact splitAt_append List.not_mem_nil t
  | cons c s ih =>
    rw [List.cons_append]
    by_cases hc : c = sep
    · rw [splitAt, if_pos hc, splitAt, if_pos hc, ih, List.cons_append]
    · obtain ⟨piece, pieces, hs⟩ := List.exists_cons_of_ne_nil (splitAt_ne_nil sep s)
      rw [hs, List.cons_append] at ih
      rw [splitAt_cons_of_ne hc hs, splitAt_cons_of_ne hc ih, List.cons_append]

theorem length_splitAt (sep : Char) (s : List Char) :
    (splitAt sep s).length = s.count sep + 1 := by
  induction s with
  | nil => rfl
  | cons c s ih =>
    by_cases hc : c = sep
    · rw [splitAt, if_pos hc, List.length_cons, ih, hc, List.count_cons_self]
    · obtain ⟨piece, pieces, hs⟩ := List.exists_cons_of_ne_nil (splitAt_ne_nil sep s)
      rw [splitAt_cons_of_ne hc hs, List.count_cons_of_ne hc, ← ih, hs]
      rfl

/-- Pieces put together are the pieces again. -/
theorem splitAt_intercalate {pieces : List (List Char)} (hne : pieces ≠ [])
    (h : ∀ piece ∈ pieces, sep ∉ piece) : splitAt sep ([sep].intercalate pieces) = pieces := by
  induction pieces with
  | nil => exact absurd rfl hne
  | cons piece pieces ih =>
    have hpiece : sep ∉ piece := h piece List.mem_cons_self
    cases pieces with
    | nil =>
      rw [List.intercalate_singleton]
      exact splitAt_of_not_mem hpiece
    | cons next pieces =>
      rw [List.intercalate_cons_cons, List.append_assoc, List.singleton_append,
        splitAt_append hpiece]
      rw [ih (by simp) fun q hq => h q (List.mem_cons_of_mem _ hq)]

/-- A piece stands in the text as it is. -/
theorem sublist_of_mem_splitAt {piece : List Char} (h : piece ∈ splitAt sep s) :
    piece.Sublist s := by
  induction s generalizing piece with
  | nil =>
    rw [splitAt] at h
    obtain rfl := List.mem_singleton.mp h
    exact List.nil_sublist []
  | cons d s ih =>
    rw [splitAt] at h
    split at h
    · rcases List.mem_cons.mp h with rfl | h
      · exact List.nil_sublist _
      · exact (ih h).cons d
    · split at h
      · next first pieces hsplit =>
        rcases List.mem_cons.mp h with rfl | h
        · exact (ih (hsplit ▸ List.mem_cons_self)).cons_cons d
        · exact (ih (hsplit ▸ List.mem_cons_of_mem first h)).cons d
      · rw [List.mem_singleton.mp h]
        exact (List.nil_sublist s).cons_cons d

theorem mem_of_mem_splitAt {piece : List Char} {c : Char} (hpiece : piece ∈ splitAt sep s)
    (hc : c ∈ piece) : c ∈ s :=
  (sublist_of_mem_splitAt hpiece).subset hc

theorem not_mem_of_mem_splitAt {piece : List Char} (h : piece ∈ splitAt sep s) : sep ∉ piece := by
  induction s generalizing piece with
  | nil =>
    rw [splitAt, List.mem_singleton] at h
    rw [h]
    exact List.not_mem_nil
  | cons d s ih =>
    rw [splitAt] at h
    split at h
    · rcases List.mem_cons.mp h with rfl | h
      · exact List.not_mem_nil
      · exact ih h
    · next hd =>
      split at h
      · next first pieces hsplit =>
        rcases List.mem_cons.mp h with rfl | h
        · rw [List.mem_cons, not_or]
          exact ⟨Ne.symm hd, ih (hsplit ▸ List.mem_cons_self)⟩
        · exact ih (hsplit ▸ List.mem_cons_of_mem first h)
      · next hsplit => exact absurd hsplit (splitAt_ne_nil sep s)

theorem mem_intercalate {pieces : List (List Char)} {c : Char} (h : c ∈ [sep].intercalate pieces) :
    c = sep ∨ ∃ piece ∈ pieces, c ∈ piece := by
  induction pieces with
  | nil => exact absurd h List.not_mem_nil
  | cons piece pieces ih =>
    cases pieces with
    | nil =>
      rw [List.intercalate_singleton] at h
      exact Or.inr ⟨piece, List.mem_cons_self, h⟩
    | cons next pieces =>
      rw [List.intercalate_cons_cons, List.append_assoc, List.mem_append, List.mem_append,
        List.mem_singleton] at h
      rcases h with h | rfl | h
      · exact Or.inr ⟨piece, List.mem_cons_self, h⟩
      · exact Or.inl rfl
      · rcases ih h with rfl | ⟨found, hfound, hc⟩
        · exact Or.inl rfl
        · exact Or.inr ⟨found, List.mem_cons_of_mem piece hfound, hc⟩

/-! ## One cut -/

/-- A text is cut where the first character of the class stands. -/
theorem breakAt_append (h : ∀ c ∈ s, p c = false) (ht : t.head?.all p = true) :
    breakAt p (s ++ t) = (s, t) := by
  have htake : t.takeWhile (! p ·) = [] := by
    cases t with
    | nil => rfl
    | cons c t => simp_all
  have hdrop : t.dropWhile (! p ·) = t := by
    cases t with
    | nil => rfl
    | cons c t => simp_all
  have hs : ∀ c ∈ s, (! p c) = true := by
    intro c hc
    rw [h c hc]
    rfl
  rw [breakAt, List.takeWhile_append_of_pos hs, List.dropWhile_append_of_pos hs, htake, hdrop,
    List.append_nil]

/-- What stands before the cut may be put in front of it. -/
theorem breakAt_append_of_forall (h : ∀ c ∈ s, p c = false) (t : List Char) :
    breakAt p (s ++ t) = (s ++ (breakAt p t).1, (breakAt p t).2) := by
  have hs : ∀ c ∈ s, (! p c) = true := by
    intro c hc
    rw [h c hc]
    rfl
  rw [breakAt, List.takeWhile_append_of_pos hs, List.dropWhile_append_of_pos hs]
  rfl

theorem breakAt_of_forall (h : ∀ c ∈ s, p c = false) : breakAt p s = (s, []) := by
  have hbreak : breakAt p (s ++ []) = (s, []) := breakAt_append h rfl
  rw [List.append_nil] at hbreak
  exact hbreak

theorem splitFirst?_eq_none (h : sep ∉ s) : splitFirst? sep s = none := by
  have hbreak : breakAt (· == sep) s = (s, []) := by
    refine breakAt_of_forall fun c hc => ?_
    rw [beq_eq_false_iff_ne]
    rintro rfl
    exact h hc
  rw [splitFirst?, hbreak]

/-- A text is cut at the first separator if none stands before it. -/
theorem splitFirst?_append (h : sep ∉ s) (t : List Char) :
    splitFirst? sep (s ++ sep :: t) = some (s, t) := by
  have hbreak : breakAt (· == sep) (s ++ sep :: t) = (s, sep :: t) := by
    refine breakAt_append (fun c hc => ?_) (by simp)
    rw [beq_eq_false_iff_ne]
    rintro rfl
    exact h hc
  rw [splitFirst?, hbreak]

theorem splitLast?_eq_none (h : sep ∉ s) : splitLast? sep s = none := by
  have hbreak : breakAt (· == sep) s.reverse = (s.reverse, []) := by
    refine breakAt_of_forall fun c hc => ?_
    rw [beq_eq_false_iff_ne]
    rintro rfl
    exact h (List.mem_reverse.mp hc)
  rw [splitLast?, hbreak]

/-- A text is cut at the last separator if none follows it. -/
theorem splitLast?_append (s : List Char) (h : sep ∉ t) :
    splitLast? sep (s ++ sep :: t) = some (s, t) := by
  have hreverse : (s ++ sep :: t).reverse = t.reverse ++ sep :: s.reverse := by simp
  have hbreak : breakAt (· == sep) (t.reverse ++ sep :: s.reverse) =
      (t.reverse, sep :: s.reverse) := by
    refine breakAt_append (fun c hc => ?_) (by simp)
    rw [beq_eq_false_iff_ne]
    rintro rfl
    exact h (List.mem_reverse.mp hc)
  rw [splitLast?, hreverse, hbreak]
  simp only [List.reverse_reverse]

/-! ## Trimming -/

theorem trimEnd_append (h : ∀ c ∈ s, p c = false) (t : List Char) :
    trimEnd p (s ++ t) = s ++ trimEnd p t := by
  have hkeep : s.reverse.dropWhile p = s.reverse := by
    cases hs : s.reverse with
    | nil => rfl
    | cons c rest =>
      have hc : p c = false := h c (List.mem_reverse.mp (hs ▸ List.mem_cons_self))
      rw [List.dropWhile_cons_of_neg (by simp [hc])]
  rw [trimEnd, List.reverse_append, List.dropWhile_append]
  split
  · next hempty =>
    rw [hkeep, trimEnd, List.isEmpty_iff.mp hempty]
    simp
  · rw [List.reverse_append, List.reverse_reverse, trimEnd]

/-- Trimming leaves a text with none of the characters that it trims alone, whatever follows. -/
theorem trim_append (hne : s ≠ []) (h : ∀ c ∈ s, p c = false) (t : List Char) :
    trim p (s ++ t) = s ++ trimEnd p t := by
  have hdrop : (s ++ t).dropWhile p = s ++ t := by
    cases s with
    | nil => exact absurd rfl hne
    | cons c s =>
      have hc : p c = false := h c List.mem_cons_self
      rw [List.cons_append, List.dropWhile_cons_of_neg (by simp [hc])]
  rw [trim, hdrop, trimEnd_append h]

theorem trimEnd_append_of_forall (h : ∀ c ∈ t, p c = true) (s : List Char) :
    trimEnd p (s ++ t) = trimEnd p s := by
  have hreverse : ∀ c ∈ t.reverse, p c = true := fun c hc => h c (List.mem_reverse.mp hc)
  rw [trimEnd, List.reverse_append, List.dropWhile_append_of_pos hreverse, trimEnd]

/-- Characters that are trimmed away can be put around a text. -/
theorem trim_surrounded {before after : List Char} (hbefore : ∀ c ∈ before, p c = true)
    (hafter : ∀ c ∈ after, p c = true) (s : List Char) :
    trim p (before ++ s ++ after) = trim p s := by
  have hdrop : after.dropWhile p = [] := by
    have hnothing : (after ++ []).dropWhile p = [] := List.dropWhile_append_of_pos hafter
    rwa [List.append_nil] at hnothing
  rw [trim, List.append_assoc, List.dropWhile_append_of_pos hbefore, List.dropWhile_append]
  split
  · next hempty => rw [trim, List.isEmpty_iff.mp hempty, hdrop]
  · rw [trimEnd_append_of_forall hafter, trim]

theorem trim_of_forall (hne : s ≠ []) (h : ∀ c ∈ s, p c = false) : trim p s = s := by
  have happend := trim_append hne h []
  rw [List.append_nil] at happend
  rw [happend]
  exact List.append_nil s

end MeshNode.Text
