import MeshNode.Proofs.Text.Escapes
import MeshNode.Proofs.Url.Authority

/-!
# URLs of this machine and their paths

A URL `http://127.0.0.1:port/…` is always read, whatever follows the slash. What it names is its
segments, each encoded; the characters that end a path, separate segments or do not count are taken
as such wherever they stand.

* **reading** — `parse_local`, with `bodyOf`, the part of the text that is its path;
  `authorityText_local`: what is written before it;
* **segments** — `mem_addSegments`: where each comes from; `isDot_of_not_hasEscape`,
  `isDotDot_of_not_hasEscape`;
* **classes** — `IsClass` is what all classes of characters to encode have in common;
* **in the text of a path** — `ne_of_mem_encodePart`: no segment holds a separator.
-/

namespace MeshNode.Url

open MeshNode.Text MeshNode.Host

/-! ## Reading -/

/-- The text before the path of a URL of this machine. -/
def localText (port : Nat) : String := "http://127.0.0.1:" ++ toString port

/-- The path in the text after its first slash. -/
def bodyOf (s : List Char) : List Char := (breakAt endsPath (cleanTail s)).1

/-- What follows the path. -/
def tailOf (s : List Char) : List Char := (breakAt endsPath (cleanTail s)).2

theorem bodyOf_append {s : List Char} (hs : ∀ c ∈ s, isGraphic c = true ∧ endsPath c = false)
    (t : List Char) : bodyOf (s ++ t) = s ++ bodyOf t := by
  rw [bodyOf, cleanTail_append fun c hc => (hs c hc).1,
    breakAt_append_of_forall fun c hc => (hs c hc).2]
  rfl

theorem tailOf_append {s : List Char} (hs : ∀ c ∈ s, isGraphic c = true ∧ endsPath c = false)
    (t : List Char) : tailOf (s ++ t) = tailOf t := by
  rw [tailOf, cleanTail_append fun c hc => (hs c hc).1,
    breakAt_append_of_forall fun c hc => (hs c hc).2]
  rfl

theorem toList_localText (port : Nat) :
    (localText port).toList = "http://127.0.0.1:".toList ++ (toString port).toList :=
  String.toList_append

theorem clean_local (port : Nat) (s : List Char) :
    clean ((localText port).toList ++ '/' :: s) =
      (localText port).toList ++ '/' :: cleanTail s := by
  have hclosed : ∀ c ∈ "http://127.0.0.1:".toList, isGraphic c = true :=
    List.all_eq_true.mp (by decide)
  have hfront : ∀ c ∈ (localText port).toList ++ ['/'], isGraphic c = true := by
    intro c hc
    rcases List.mem_append.mp hc with hc | hc
    · rcases List.mem_append.mp (toList_localText port ▸ hc) with hc | hc
      · exact hclosed c hc
      · exact isGraphic_of_isBareChar (isBareChar_of_isDecimal (isDecimal_of_mem_toString hc))
    · rw [List.mem_singleton.mp hc]
      decide
  have hne : (localText port).toList ++ ['/'] ≠ [] := List.append_ne_nil_of_right_ne_nil _ (by simp)
  have hclean := clean_append hne hfront s
  rw [List.append_assoc, List.append_assoc] at hclean
  exact hclean

/-- The authority of this machine at a port, which is left out where the scheme implies it. -/
def localAuthority (port : Nat) : Authority :=
  ⟨"", "", some (.ipv4 ⟨[127, 0, 0, 1], rfl⟩), if port = 80 then none else some port⟩

/-- The authority is cut off at the slash. -/
theorem cutAuthority_local {port : Nat} (hport : port < 0x10000) (rest : List Char) :
    cutAuthority "http" ("127.0.0.1:".toList ++ ((toString port).toList ++ '/' :: rest)) =
      .ok (localAuthority port, '/' :: rest) := by
  have hauthority : ∀ c ∈ "127.0.0.1:".toList ++ (toString port).toList,
      endsAuthority true c = false ∧ c ≠ '@' := by
    have hclosed : ∀ c ∈ "127.0.0.1:".toList, endsAuthority true c = false ∧ c ≠ '@' :=
      List.all_iff_forall_prop.mp (by decide)
    intro c hc
    rcases List.mem_append.mp hc with hc | hc
    · exact hclosed c hc
    · have hdecimal := isDecimal_of_mem_toString hc
      have hends : (! endsAuthority true c) = true :=
        ascii_imp (p := isDecimal) (q := (! endsAuthority true ·)) (by decide)
          (lt_of_isDecimal hdecimal) hdecimal
      refine ⟨by simpa using hends, ?_⟩
      rintro rfl
      exact absurd hdecimal (by decide)
  have huser : cutUserinfo true ("127.0.0.1:".toList ++ ((toString port).toList ++ '/' :: rest)) =
      .ok ("", "", "127.0.0.1:".toList ++ ((toString port).toList ++ '/' :: rest)) := by
    rw [← List.append_assoc]
    have hbreak := breakAt_append (t := '/' :: rest) (fun c hc => (hauthority c hc).1) rfl
    have hat : '@' ∉ "127.0.0.1:".toList ++ (toString port).toList :=
      fun hmem => (hauthority '@' hmem).2 rfl
    rw [cutUserinfo, hbreak]
    dsimp only
    rw [splitLast?_eq_none hat]
  have hhost : cutHost true false ("127.0.0.1:".toList ++ ((toString port).toList ++ '/' :: rest)) =
      ("127.0.0.1".toList, ':' :: ((toString port).toList ++ '/' :: rest)) := rfl
  have hdomain : parseDomain "127.0.0.1".toList = .ok (.ipv4 ⟨[127, 0, 0, 1], rfl⟩) := by
    decide +kernel
  have hspecial : isSpecialScheme "http" = true := by decide
  have hcut : cutPort "http" (':' :: ((toString port).toList ++ '/' :: rest)) =
      .ok (if port = 80 then none else some port, '/' :: rest) := by
    rw [cutPort_append "http" hport rfl]
    simp only [defaultPort?, Option.some.injEq, eq_comm]
  have hempty : "127.0.0.1".toList.isEmpty = false := rfl
  have hmap : ∀ host : Host, (Except.ok host : Except UrlError Host).map some = .ok (some host) :=
    fun _ => rfl
  have hnone : (some (Host.ipv4 ⟨[127, 0, 0, 1], rfl⟩)).isNone = false := rfl
  simp only [cutAuthority, hspecial, huser, hhost, ok_bind, if_true, hempty, Bool.false_eq_true,
    if_false, hdomain, hmap, hnone, false_and, hcut]
  rfl

/-- Whatever follows the slash, the text is that of a URL. -/
theorem parse_local {port : Nat} (hport : port < 0x10000) {text : String} {s : List Char}
    (htext : text.toList = (localText port).toList ++ '/' :: s) :
    parse text = .ok ⟨"http", some (localAuthority port),
      .segments (segmentsOf true false (bodyOf s)), (cutTail true (tailOf s)).1,
      (cutTail true (tailOf s)).2⟩ := by
  have hfront : (localText port).toList ++ '/' :: cleanTail s =
      "http:".toList ++
        ("//127.0.0.1:".toList ++ ((toString port).toList ++ '/' :: cleanTail s)) := by
    rw [toList_localText, List.append_assoc]
    rfl
  have hscheme : ∀ rest, cutScheme? ("http:".toList ++ rest) = some ("http", rest) := fun _ => rfl
  have hslashes :
      ("//127.0.0.1:".toList ++ ((toString port).toList ++ '/' :: cleanTail s)).dropWhile isSlash =
        "127.0.0.1:".toList ++ ((toString port).toList ++ '/' :: cleanTail s) := rfl
  have hspecial : isSpecialScheme "http" = true := by decide
  have hpath : breakAt endsPath ('/' :: cleanTail s) = ('/' :: bodyOf s, tailOf s) := rfl
  rw [parse, htext, (clean_local port s).trans hfront, hscheme]
  dsimp only
  simp only [parseAfterScheme, if_neg (show "http" ≠ "file" by decide), hspecial, if_true, hslashes,
    cutAuthority_local hport, ok_bind, hpath]
  rfl

/-- The text of the authority is as it was, but for a port that is left out. -/
theorem authorityText_local (port : Nat) : authorityText (localAuthority port) =
    "//127.0.0.1" ++ (if port = 80 then "" else ":" ++ toString port) := by
  have hhost : (Host.ipv4 ⟨[127, 0, 0, 1], rfl⟩).render = "127.0.0.1" := by decide +kernel
  rw [authorityText, localAuthority]
  split <;> simp [userinfoText, hhost]

/-! ## What counts -/

section Counting

variable {s : List Char}

theorem cleanTail_eq_self (hmarks : ∀ c ∈ s, c ≠ '\t' ∧ c ≠ '\n' ∧ c ≠ '\r')
    (hlast : s.getLast?.all (fun c => 0x20 < c.toNat) = true) : cleanTail s = s := by
  have htrim : trimEnd (·.toNat ≤ 0x20) s = s := by
    have hdrop : s.reverse.dropWhile (·.toNat ≤ 0x20) = s.reverse := by
      cases hs : s.reverse with
      | nil => rfl
      | cons c rest =>
        have hc : s.getLast? = some c := by rw [List.getLast?_eq_head?_reverse, hs]; rfl
        rw [hc, Option.all_some, decide_eq_true_eq] at hlast
        rw [List.dropWhile_cons_of_neg (by simpa using hlast)]
    rw [trimEnd, hdrop, List.reverse_reverse]
  rw [cleanTail, htrim, List.filter_eq_self]
  intro c hc
  obtain ⟨htab, hline, hreturn⟩ := hmarks c hc
  rw [bne_iff_ne.mpr htab, bne_iff_ne.mpr hline, bne_iff_ne.mpr hreturn]
  rfl

theorem trimEnd_sublist (p : Char → Bool) (s : List Char) : (trimEnd p s).Sublist s := by
  have hreverse := (List.dropWhile_sublist p (l := s.reverse)).reverse
  rwa [List.reverse_reverse] at hreverse

theorem cleanTail_sublist (s : List Char) : (cleanTail s).Sublist s :=
  List.filter_sublist.trans (trimEnd_sublist _ s)

theorem bodyOf_sublist (s : List Char) : (bodyOf s).Sublist (cleanTail s) :=
  List.takeWhile_sublist _

/-- A text of which all counts holds no character that does not, and does not end in one. -/
theorem of_cleanTail_eq_self (h : cleanTail s = s) :
    (∀ c ∈ s, c ≠ '\t' ∧ c ≠ '\n' ∧ c ≠ '\r') ∧
      s.getLast?.all (fun c => 0x20 < c.toNat) = true := by
  have hmem : ∀ c ∈ s, c ≠ '\t' ∧ c ≠ '\n' ∧ c ≠ '\r' := by
    intro c hc
    rw [← h, cleanTail, List.mem_filter] at hc
    simpa [and_assoc] using hc.2
  have htrim : trimEnd (·.toNat ≤ 0x20) s = s := by
    have hle : s.length ≤ (trimEnd (·.toNat ≤ 0x20) s).length := by
      rw [← congrArg List.length h]
      exact List.length_filter_le _ _
    exact (trimEnd_sublist _ s).eq_of_length_le hle
  refine ⟨hmem, ?_⟩
  have hreverse := congrArg List.reverse htrim
  rw [trimEnd, List.reverse_reverse] at hreverse
  rw [List.getLast?_eq_head?_reverse, ← hreverse]
  cases hhead : (s.reverse.dropWhile (·.toNat ≤ 0x20)).head? with
  | none => rfl
  | some c =>
    have hc := List.head?_dropWhile_not (fun c : Char => decide (c.toNat ≤ 0x20)) s.reverse
    rw [hhead] at hc
    simpa using hc

end Counting

/-! ## Segments -/

variable {parts : List String} {segs : List (List Char)} {s piece : List Char} {c : Char}

/-- A segment that is taken is one of those given, apart from those for dots. -/
theorem mem_addSegment {final : Bool} {p : String} (h : p ∈ addSegment false parts s final) :
    p ∈ parts ∨ p = "" ∨
      isDot s = false ∧ isDotDot s = false ∧ p = encodePart encodedInPath s := by
  have hdrop : ∀ q ∈ dropSegment parts, q ∈ parts := by
    intro q hq
    unfold dropSegment at hq
    split at hq
    · split at hq
      · exact hq
      · exact (List.dropLast_sublist parts).subset hq
    · exact absurd hq List.not_mem_nil
  have hlast : ∀ front : List String, p ∈ front ++ [""] → p ∈ front ∨ p = "" := by
    intro front hp
    rw [List.mem_append, List.mem_singleton] at hp
    exact hp
  -- dots leave an empty segment behind if they come last
  unfold addSegment at h
  split at h
  · split at h
    · rcases hlast _ h with h | h
      · exact Or.inl (hdrop p h)
      · exact Or.inr (Or.inl h)
    · exact Or.inl (hdrop p h)
  · next hdotdot =>
    split at h
    · split at h
      · rcases hlast _ h with h | h
        · exact Or.inl h
        · exact Or.inr (Or.inl h)
      · exact Or.inl h
    · next hdot =>
      rw [Bool.false_and, Bool.false_and, if_neg Bool.false_ne_true, List.mem_append,
        List.mem_singleton] at h
      rcases h with h | h
      · exact Or.inl h
      · exact Or.inr (Or.inr ⟨Bool.eq_false_iff.mpr hdot, Bool.eq_false_iff.mpr hdotdot, h⟩)

theorem mem_addSegments {p : String} (h : p ∈ addSegments false parts segs) :
    p ∈ parts ∨ p = "" ∨ ∃ s ∈ segs, isDot s = false ∧ isDotDot s = false ∧
      p = encodePart encodedInPath s := by
  have hone : ∀ {parts s} {segs : List (List Char)} {final : Bool},
      p ∈ addSegment false parts s final → s ∈ segs →
      p ∈ parts ∨ p = "" ∨ ∃ s ∈ segs, isDot s = false ∧ isDotDot s = false ∧
        p = encodePart encodedInPath s := by
    intro parts s segs final hp hs
    rcases mem_addSegment hp with hp | hp | hp
    · exact Or.inl hp
    · exact Or.inr (Or.inl hp)
    · exact Or.inr (Or.inr ⟨s, hs, hp⟩)
  induction segs generalizing parts with
  | nil => exact Or.inl h
  | cons first rest ih =>
    cases rest with
    | nil => exact hone h List.mem_cons_self
    | cons next rest =>
      rw [addSegments] at h
      · rcases ih h with hp | hp | ⟨s, hs, hp⟩
        · exact hone hp List.mem_cons_self
        · exact Or.inr (Or.inl hp)
        · exact Or.inr (Or.inr ⟨s, List.mem_cons_of_mem first hs, hp⟩)
      · exact List.cons_ne_nil next rest

/-- Without an escape, the only dots are dots. -/
theorem eq_of_dropDot? {t : List Char} (h : hasEscape s = false) (ht : dropDot? s = some t) :
    s = '.' :: t := by
  unfold dropDot? at ht
  split at ht
  · cases ht
    rfl
  · exact absurd h (by simp [hasEscape, beginsWithOctet, isHex, hexDigit?])
  · exact absurd h (by simp [hasEscape, beginsWithOctet, isHex, hexDigit?])
  · cases ht

theorem isDot_of_not_hasEscape (h : hasEscape s = false) (hs : s ≠ ['.']) : isDot s = false := by
  refine Bool.eq_false_iff.mpr fun hdot => hs ?_
  exact eq_of_dropDot? h (beq_iff_eq.mp hdot)

theorem isDotDot_of_not_hasEscape (h : hasEscape s = false) (hs : s ≠ ['.', '.']) :
    isDotDot s = false := by
  refine Bool.eq_false_iff.mpr fun hdots => hs ?_
  obtain ⟨t, ht, hrest⟩ := Option.bind_eq_some_iff.mp (beq_iff_eq.mp hdots)
  have hfirst := eq_of_dropDot? h ht
  rw [hfirst, hasEscape, Bool.or_eq_false_iff] at h
  rw [hfirst, eq_of_dropDot? h.2 hrest]

/-! ## Classes of characters to encode -/

section Classes

variable {encoded : Char → Bool}

/-- A class of characters to encode leaves escapes alone and takes all that is not graphic. -/
structure IsClass (encoded : Char → Bool) : Prop where
  spares : ∀ c, c = '%' ∨ isHex c = true → encoded c = false
  covers : ∀ c, c.toNat < 0x80 → encoded c = false → isGraphic c = true

theorem isClass_of_ascii (hpercent : encoded '%' = false)
    (hhex : ∀ n : Fin 128, isHex (Char.ofNat n) = true → (! encoded (Char.ofNat n)) = true)
    (hgraphic : ∀ n : Fin 128, (! encoded (Char.ofNat n)) = true →
      isGraphic (Char.ofNat n) = true) : IsClass encoded where
  spares c h := by
    rcases h with rfl | h
    · exact hpercent
    · have hnot := ascii_imp (q := (! encoded ·)) hhex (lt_of_isHex h) h
      simpa using hnot
  covers c hlt h := ascii_imp (p := (! encoded ·)) hgraphic hlt (by simpa using h)

theorem isClass_fragment : IsClass encodedInFragment :=
  isClass_of_ascii (by decide) (by decide) (by decide)

theorem isClass_query : IsClass (encodedInQuery false) :=
  isClass_of_ascii (by decide) (by decide) (by decide)

theorem isClass_path : IsClass encodedInPath :=
  isClass_of_ascii (by decide) (by decide) (by decide)

theorem isClass_userinfo : IsClass encodedInUserinfo :=
  isClass_of_ascii (by decide) (by decide) (by decide)

end Classes

/-! ## In the text of a path -/

/-- A piece of a path between slashes stays one, once encoded. -/
theorem ne_of_mem_encodePart (hs : '/' ∉ s) (hc : c ∈ (encodePart encodedInPath s).toList) :
    c ≠ '/' ∧ c ≠ '?' ∧ c ≠ '#' := by
  rw [encodePart, String.toList_ofList] at hc
  rcases mem_percentEncode hc with hescape | ⟨hmem, hplain, -⟩
  · refine ⟨?_, ?_, ?_⟩
    all_goals
      rintro rfl
      exact absurd hescape (by decide)
  · refine ⟨fun heq => hs (heq ▸ hmem), ?_, ?_⟩
    all_goals
      rintro rfl
      exact absurd hplain (by decide)

theorem toList_render_segments (parts : List String) :
    (UrlPath.segments parts).render.toList = parts.flatMap ('/' :: ·.toList) := by
  rw [UrlPath.render, String.toList_join, List.flatMap_map]
  refine congrArg (parts.flatMap ·) (funext fun p => ?_)
  rw [String.toList_append]
  rfl

end MeshNode.Url
