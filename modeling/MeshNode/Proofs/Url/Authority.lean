import Mathlib.Data.Bool.AllAny
import MeshNode.Proofs.Records
import MeshNode.Proofs.Url.Hosts
import MeshNode.Url.Reader

/-!
# Authorities, written and read back

A URL with a plain host and a port, and no user, is read as it is written; and every
URL of a scheme without rules of its own has a plain host and a port of 16 bits.

* **one cut after another** — `cutUserinfo_append`, `cutHost_append`, `cutPort_append`;
* **the round trip** — `cutAuthority_append`, `parse_front`, `parse_front_path`;
* **what is ever read** — `authority_of_parse` for every scheme, and `of_parse` for those without
  rules of their own.
-/

namespace MeshNode.Url

open MeshNode.Text MeshNode.Host

/-! ## Schemes -/

/-- A scheme in lower case without rules of its own. -/
structure PlainScheme (scheme : String) : Prop where
  head : scheme.toList.head?.any (·.isAlpha) = true
  chars : scheme.toList.all isSchemeChar = true
  lower : scheme.toList.map lowerAscii = scheme.toList
  plain : isSpecialScheme scheme = false

variable {scheme : String} {host : Host} {n : Nat} {tail : List Char}

theorem ne_file_of_plain (h : isSpecialScheme scheme = false) : scheme ≠ "file" := by
  rintro rfl
  exact absurd h (by decide)

theorem defaultPort?_of_plain (h : isSpecialScheme scheme = false) :
    defaultPort? scheme = none := by
  unfold defaultPort?
  split
  case h_6 => rfl
  all_goals exact absurd h (by decide)

/-- The scheme of a URL is cut off where its colon stands. -/
theorem cutScheme?_append (h : PlainScheme scheme) (rest : List Char) :
    cutScheme? (scheme.toList ++ ':' :: rest) = some (scheme, rest) := by
  have hbreak : breakAt (! isSchemeChar ·) (scheme.toList ++ ':' :: rest)
      = (scheme.toList, ':' :: rest) := by
    refine breakAt_append (fun c hc => ?_) rfl
    rw [List.all_eq_true.mp h.chars c hc]
    rfl
  have hhead := h.head
  cases hs : scheme.toList with
  | nil =>
    rw [hs] at hhead
    exact absurd hhead Bool.false_ne_true
  | cons c cs =>
    have hc : c.isAlpha = true := by
      rw [hs] at hhead
      exact hhead
    rw [hs] at hbreak
    rw [List.cons_append] at hbreak ⊢
    rw [cutScheme?, if_pos hc, hbreak]
    simp only [← hs, h.lower, String.ofList_toList]

/-! ## Parts of an authority -/

/-- The text of a host and a port. -/
def addressText (host : Host) (n : Nat) : String := host.render ++ ":" ++ toString n

theorem toList_addressText : (addressText host n).toList =
    host.render.toList ++ ':' :: (toString n).toList := by
  rw [addressText, String.toList_append, String.toList_append, List.append_assoc]
  rfl

theorem mem_addressText (h : host.Plain) {c : Char} (hc : c ∈ (addressText host n).toList) :
    isBareChar c = true := by
  rw [toList_addressText, List.mem_append, List.mem_cons] at hc
  rcases hc with hc | rfl | hc
  · exact h.mem_render hc
  · decide
  · exact isBareChar_of_isDecimal (isDecimal_of_mem_toString hc)

theorem endsAuthority_of_isBareChar {c : Char} (h : isBareChar c = true) :
    endsAuthority false c = false := by
  have hslash : c ≠ '/' := ne_of_isBareChar h (by decide)
  have hquestion : c ≠ '?' := ne_of_isBareChar h (by decide)
  have hhash : c ≠ '#' := ne_of_isBareChar h (by decide)
  simp [endsAuthority, hslash, hquestion, hhash]

/-- There is no user in an authority of bare characters. -/
theorem cutUserinfo_append {s : List Char} (hs : ∀ c ∈ s, isBareChar c = true)
    (htail : tail.head?.all (endsAuthority false) = true) :
    cutUserinfo false (s ++ tail) = .ok ("", "", s ++ tail) := by
  have hbreak : breakAt (endsAuthority false) (s ++ tail) = (s, tail) :=
    breakAt_append (fun c hc => endsAuthority_of_isBareChar (hs c hc)) htail
  have hat : '@' ∉ s := fun hmem => ne_of_isBareChar (hs '@' hmem) (by decide) rfl
  rw [cutUserinfo, hbreak]
  dsimp only
  rw [splitLast?_eq_none hat]

theorem cutHost_cons {inside : Bool} {c : Char} (hc : isBareChar c = true)
    (hcolon : c = ':' → inside = true) (s : List Char) :
    cutHost false inside (c :: s) =
      ((c :: (cutHost false (if c == '[' then true else if c == ']' then false else inside) s).1),
        (cutHost false (if c == '[' then true else if c == ']' then false else inside) s).2) := by
  have hgo : ¬ ((c == ':' && !inside || endsAuthority false c) = true) := by
    rw [endsAuthority_of_isBareChar hc, Bool.or_false, Bool.and_eq_true, beq_iff_eq, not_and]
    intro he
    rw [hcolon he]
    exact Bool.false_ne_true
  rw [cutHost, if_neg hgo]

/-- Between brackets a colon does not end a host. -/
theorem cutHost_brackets {s : List Char} (hs : ∀ c ∈ s, c = ':' ∨ isHex c = true) (t : List Char) :
    cutHost false true (s ++ ']' :: ':' :: t) = (s ++ [']'], ':' :: t) := by
  induction s with
  | nil =>
    rw [List.nil_append, cutHost_cons (by decide) (fun _ => rfl)]
    rfl
  | cons c s ih =>
    have hc : isBareChar c = true ∧ (c == '[') = false ∧ (c == ']') = false := by
      rcases hs c List.mem_cons_self with rfl | hhex
      · decide
      · refine ⟨isBareChar_of_isHex hhex, ?_, ?_⟩ <;>
          exact beq_eq_false_iff_ne.mpr (by rintro rfl; exact absurd hhex (by decide))
    rw [List.cons_append, cutHost_cons hc.1 (fun _ => rfl), hc.2.1, hc.2.2]
    rw [if_neg Bool.false_ne_true, if_neg Bool.false_ne_true,
      ih fun x hx => hs x (List.mem_cons_of_mem c hx)]
    rfl

theorem cutHost_name {s : List Char} (hs : ∀ c ∈ s, isNameChar c = true) (t : List Char) :
    cutHost false false (s ++ ':' :: t) = (s, ':' :: t) := by
  induction s with
  | nil => rfl
  | cons c s ih =>
    have hc : isNameChar c = true := hs c List.mem_cons_self
    have hne : ∀ d, isNameChar d = false → c ≠ d := by
      rintro d hd rfl
      exact Bool.false_ne_true (hd.symm.trans hc)
    have hcolon : c ≠ ':' := hne ':' (by decide)
    have hbracket : (c == '[') = false := beq_eq_false_iff_ne.mpr (hne '[' (by decide))
    rw [List.cons_append, cutHost_cons (isBareChar_of_isNameChar hc) (fun he => absurd he hcolon),
      hbracket]
    rw [if_neg Bool.false_ne_true, ite_self, ih fun x hx => hs x (List.mem_cons_of_mem c hx)]

/-- The text of a plain host is cut off at the colon after it. -/
theorem cutHost_append (h : host.Plain) (t : List Char) :
    cutHost false false (host.render.toList ++ ':' :: t) = (host.render.toList, ':' :: t) := by
  cases h with
  | name hne hs =>
    rw [Host.render, String.toList_ofList]
    exact cutHost_name hs t
  | ipv6 a =>
    rw [toList_render_ipv6, List.cons_append, List.append_assoc,
      cutHost_cons (by decide) (by decide)]
    show ('[' :: (cutHost false true (a.renderHex.toList ++ ']' :: ':' :: t)).1,
      (cutHost false true (a.renderHex.toList ++ ']' :: ':' :: t)).2) = _
    rw [cutHost_brackets fun c hc => Ipv6.mem_renderHex hc]

/-- A port is cut off where its digits end; one that the scheme implies does not count. -/
theorem cutPort_append (scheme : String) (hn : n < 0x10000)
    (htail : tail.head?.all (endsAuthority true) = true) :
    cutPort scheme (':' :: ((toString n).toList ++ tail)) =
      .ok (if defaultPort? scheme = some n then none else some n, tail) := by
  have hends : tail.head?.all (! isDecimal ·) = true := by
    cases tail with
    | nil => rfl
    | cons c rest =>
      have hc : ((c = '/' ∨ c = '?') ∨ c = '#') ∨ c = '\\' := by
        simpa [endsAuthority] using htail
      rcases hc with ((rfl | rfl) | rfl) | rfl <;> rfl
  have hbreak : breakAt (! isDecimal ·) ((toString n).toList ++ tail) =
      ((toString n).toList, tail) := by
    refine breakAt_append (fun c hc => ?_) hends
    rw [isDecimal_of_mem_toString hc]
    rfl
  have hempty : (toString n).toList.isEmpty = false := by
    rw [List.isEmpty_eq_false_iff]
    exact toString_ne_nil n
  rw [cutPort, hbreak]
  simp only [readDigits_toString hn, htail, hempty, Bool.false_eq_true, false_or]

/-- What ends an authority of any scheme ends one of a special scheme. -/
theorem endsAuthority_special (h : tail.head?.all (endsAuthority false) = true) :
    tail.head?.all (endsAuthority true) = true := by
  cases tail with
  | nil => rfl
  | cons c rest =>
    have hc : endsAuthority false c = true := h
    rw [endsAuthority, Bool.false_and, Bool.or_false] at hc
    show endsAuthority true c = true
    rw [endsAuthority, hc, Bool.true_or]

/-- A host and a port are read as they are written, behind whatever user. -/
theorem cutAuthority_of_cutUserinfo (hplain : isSpecialScheme scheme = false) (h : host.Plain)
    (hn : n < 0x10000) (htail : tail.head?.all (endsAuthority false) = true) {s : List Char}
    {username password : String}
    (huser : cutUserinfo false s = .ok (username, password, (addressText host n).toList ++ tail)) :
    cutAuthority scheme s = .ok (⟨username, password, some host, some n⟩, tail) := by
  -- user, host and port are cut off in turn, each leaving the text of the next
  have htext : (addressText host n).toList ++ tail =
      host.render.toList ++ ':' :: ((toString n).toList ++ tail) := by
    rw [toList_addressText, List.append_assoc, List.cons_append]
  rw [cutAuthority, hplain, huser]
  simp only [htext, bind, Except.bind, cutHost_append h, h.parsePlain_render,
    cutPort_append scheme hn (endsAuthority_special htail), defaultPort?_of_plain hplain]
  rfl

theorem cutAuthority_append (hplain : isSpecialScheme scheme = false) (h : host.Plain)
    (hn : n < 0x10000) (htail : tail.head?.all (endsAuthority false) = true) :
    cutAuthority scheme ((addressText host n).toList ++ tail) =
      .ok (⟨"", "", some host, some n⟩, tail) :=
  cutAuthority_of_cutUserinfo hplain h hn htail
    (cutUserinfo_append (fun _ hc => mem_addressText h hc) htail)

/-! ## URLs of an address -/

theorem isGraphic_of_isSchemeChar {c : Char} (h : isSchemeChar c = true) : isGraphic c = true := by
  have hlt : c.toNat < 128 := by
    simp only [isSchemeChar, Bool.or_eq_true, beq_iff_eq] at h
    rcases h with ((h | rfl) | rfl) | rfl
    · exact lt_of_isAlphanum h
    · decide
    · decide
    · decide
  exact ascii_imp (by decide) hlt h

/-- What counts of the end of a text. -/
def cleanTail (s : List Char) : List Char :=
  (trimEnd (·.toNat ≤ 0x20) s).filter fun c => c != '\t' && c != '\n' && c != '\r'

/-- What is neither a control character nor a space counts, and stays where it is. -/
theorem cleanTail_append {s : List Char} (hs : ∀ c ∈ s, isGraphic c = true) (t : List Char) :
    cleanTail (s ++ t) = s ++ cleanTail t := by
  have hgt : ∀ c ∈ s, 0x20 < c.toNat := by
    intro c hc
    have hgraphic := hs c hc
    simp only [isGraphic, Bool.and_eq_true, decide_eq_true_eq] at hgraphic
    exact hgraphic.1
  have htrim : trimEnd (·.toNat ≤ 0x20) (s ++ t) = s ++ trimEnd (·.toNat ≤ 0x20) t := by
    refine trimEnd_append (fun c hc => ?_) t
    exact decide_eq_false (Nat.not_le_of_lt (hgt c hc))
  have hkeep : s.filter (fun c => c != '\t' && c != '\n' && c != '\r') = s := by
    refine List.filter_eq_self.mpr fun c hc => ?_
    have hne : ∀ d : Char, d.toNat ≤ 0x20 → (c != d) = true := by
      rintro d hd
      rw [bne_iff_ne]
      rintro rfl
      exact absurd (hgt c hc) (Nat.not_lt_of_le hd)
    rw [hne '\t' (by decide), hne '\n' (by decide), hne '\r' (by decide)]
    rfl
  rw [cleanTail, htrim, List.filter_append, hkeep]
  rfl

theorem clean_cons {c : Char} (hc : isGraphic c = true) (s : List Char) :
    clean (c :: s) = cleanTail (c :: s) := by
  have hgt : ¬ c.toNat ≤ 0x20 := by
    simp only [isGraphic, Bool.and_eq_true, decide_eq_true_eq] at hc
    omega
  rw [clean, trim, List.dropWhile_cons_of_neg (by simpa using hgt)]
  rfl

theorem clean_append {s : List Char} (hne : s ≠ []) (hs : ∀ c ∈ s, isGraphic c = true)
    (t : List Char) : clean (s ++ t) = s ++ cleanTail t := by
  obtain ⟨c, front, rfl⟩ := List.exists_cons_of_ne_nil hne
  rw [← cleanTail_append hs t]
  exact clean_cons (hs c List.mem_cons_self) (front ++ t)

/-- Whether a URL is one of a scheme, a host and a port, without a user. -/
def IsAt (u : Url) (scheme : String) (host : Host) (n : Nat) : Prop :=
  u.scheme = scheme ∧ u.authority = some ⟨"", "", some host, some n⟩

theorem parse_of_clean {text : String} (tail : List Char) (hscheme : PlainScheme scheme)
    (h : host.Plain) (hn : n < 0x10000) (htail : tail.head?.all (endsAuthority false) = true)
    (hclean : clean text.toList =
      scheme.toList ++ ':' :: '/' :: '/' :: ((addressText host n).toList ++ tail)) :
    ∃ u, parse text = .ok u ∧ u.IsAt scheme host n := by
  rw [parse, hclean, cutScheme?_append hscheme]
  simp only [parseAfterScheme, if_neg (ne_file_of_plain hscheme.plain), hscheme.plain,
    Bool.false_eq_true, if_false, cutAuthority_append hscheme.plain h hn htail]
  exact ⟨_, rfl, rfl, rfl⟩

/-- The text of a URL up to its port. -/
def frontText (scheme : String) (host : Host) (n : Nat) : String :=
  scheme ++ "://" ++ addressText host n

theorem toList_frontText : (frontText scheme host n).toList =
    scheme.toList ++ ':' :: '/' :: '/' :: (addressText host n).toList := by
  rw [frontText, String.toList_append, String.toList_append, List.append_assoc]
  rfl

theorem isGraphic_of_mem_frontText (hscheme : PlainScheme scheme) (h : host.Plain) {c : Char}
    (hc : c ∈ (frontText scheme host n).toList) : isGraphic c = true := by
  rw [toList_frontText, List.mem_append, List.mem_cons, List.mem_cons, List.mem_cons] at hc
  rcases hc with hc | rfl | rfl | rfl | hc
  · exact isGraphic_of_isSchemeChar (List.all_eq_true.mp hscheme.chars c hc)
  · decide
  · decide
  · decide
  · exact isGraphic_of_isBareChar (mem_addressText h hc)

theorem frontText_ne_nil : (frontText scheme host n).toList ≠ [] := by
  rw [toList_frontText]
  exact List.append_ne_nil_of_right_ne_nil _ (List.cons_ne_nil _ _)

/-- A URL that ends with its port is read as it is written. -/
theorem parse_front (hscheme : PlainScheme scheme) (h : host.Plain) (hn : n < 0x10000) :
    ∃ u, parse (frontText scheme host n) = .ok u ∧ u.IsAt scheme host n := by
  have hclean := clean_append (@frontText_ne_nil scheme host n)
    (fun c hc => isGraphic_of_mem_frontText hscheme h hc) []
  rw [List.append_nil] at hclean
  refine parse_of_clean [] hscheme h hn rfl ?_
  rw [hclean, toList_frontText, List.append_nil]
  exact List.append_nil _

/-- Whatever path follows the port, the front of a URL is read as it is written. -/
theorem parse_front_path (hscheme : PlainScheme scheme) (h : host.Plain) (hn : n < 0x10000)
    (path : String) :
    ∃ u, parse (frontText scheme host n ++ "/" ++ path) = .ok u ∧ u.IsAt scheme host n := by
  have hchars : ∀ c ∈ (frontText scheme host n).toList ++ ['/'], isGraphic c = true := by
    intro c hc
    rcases List.mem_append.mp hc with hc | hc
    · exact isGraphic_of_mem_frontText hscheme h hc
    · rw [List.mem_singleton.mp hc]
      decide
  have hclean := clean_append (by simp) hchars path.toList
  refine parse_of_clean ('/' :: cleanTail path.toList) hscheme h hn rfl ?_
  rw [String.toList_append, String.toList_append]
  refine hclean.trans ?_
  rw [toList_frontText]
  simp

/-! ## What is ever read -/

theorem port_lt_of_cutPort {s rest : List Char} (h : cutPort scheme s = .ok (some n, rest)) :
    n < 0x10000 := by
  unfold cutPort at h
  split at h
  · dsimp only at h
    split at h
    · next hread _ =>
      have hlt := readDigits_lt (by decide) hread
      split at h <;> cases h
      exact hlt
    · cases h
  · cases h

/-- A host is read by the rules of its scheme, and a port has 16 bits. -/
theorem of_cutAuthority {s rest : List Char} {a : Authority}
    (h : cutAuthority scheme s = .ok (a, rest)) :
    (∀ host, a.host = some host →
      if isSpecialScheme scheme then ∃ text, parseDomain text = .ok host
      else ∃ text, parsePlain text = .ok (some host)) ∧
    ∀ n, a.port = some n → n < 0x10000 := by
  unfold cutAuthority at h
  obtain ⟨⟨username, password, front⟩, -, h⟩ := bind_eq_ok.mp h
  dsimp only at h
  cases hspecial : isSpecialScheme scheme with
  | true =>
    rw [if_pos hspecial] at h
    split at h
    · cases h
    obtain ⟨host?, hhost, h⟩ := bind_eq_ok.mp h
    split at h
    · cases h
    obtain ⟨⟨port?, tail⟩, hport, h⟩ := bind_eq_ok.mp h
    cases h
    refine ⟨?_, ?_⟩
    · rintro host rfl
      cases hdomain : parseDomain (cutHost true false front).1 with
      | error e =>
        rw [hspecial, hdomain] at hhost
        cases hhost
      | ok found =>
        rw [hspecial, hdomain] at hhost
        cases hhost
        exact ⟨_, hdomain⟩
    · rintro n rfl
      exact port_lt_of_cutPort hport
  | false =>
    rw [hspecial, if_neg Bool.false_ne_true] at h
    obtain ⟨host?, hhost, h⟩ := bind_eq_ok.mp h
    split at h
    · cases h
    obtain ⟨⟨port?, tail⟩, hport, h⟩ := bind_eq_ok.mp h
    cases h
    refine ⟨?_, ?_⟩
    · rintro host rfl
      exact ⟨_, hhost⟩
    · rintro n rfl
      exact port_lt_of_cutPort hport

/-- A `file` URL has no port. -/
theorem port_of_parseFile {s : List Char} {a : Authority} {segments : List String}
    (h : parseFile s = .ok (a, segments)) : a.port = none := by
  unfold parseFile at h
  split at h
  · split at h
    · dsimp only at h
      split at h
      · cases h
        rfl
      · obtain ⟨authority, hauthority, h⟩ := bind_eq_ok.mp h
        have hport : authority.port = none := by
          unfold fileAuthority at hauthority
          split at hauthority
          · obtain ⟨host?, -, hread⟩ := bind_eq_ok.mp hauthority
            cases hread
            rfl
          · obtain ⟨host?, -, hread⟩ := bind_eq_ok.mp hauthority
            cases hread
            rfl
        cases h
        split
        · rfl
        · exact hport
    · cases h
      rfl
  · cases h
    rfl

/-- A URL keeps its scheme, and its authority is the one that was cut off. -/
theorem of_parseAfterScheme {s : List Char} {u : Url} (h : parseAfterScheme scheme s = .ok u) :
    u.scheme = scheme ∧ ∀ a, u.authority = some a →
      if scheme = "file" then a.port = none
      else ∃ front rest, cutAuthority scheme front = .ok (a, rest) := by
  unfold parseAfterScheme at h
  dsimp only at h
  split at h
  · next hfile =>
    obtain ⟨⟨authority, segments⟩, hbody, h⟩ := bind_eq_ok.mp h
    cases h
    refine ⟨rfl, fun a ha => ?_⟩
    rw [if_pos hfile, ← Option.some.inj ha]
    exact port_of_parseFile hbody
  · next hfile =>
    split at h
    · next front _ =>
      obtain ⟨⟨authority, rest⟩, hcut, h⟩ := bind_eq_ok.mp h
      cases h
      refine ⟨rfl, fun a ha => ?_⟩
      rw [if_neg hfile, ← Option.some.inj ha]
      exact ⟨front, rest, hcut⟩
    · cases h
      exact ⟨rfl, fun a ha => absurd ha (by simp)⟩

/-- The same for the URL of a text. -/
theorem authority_of_parse {text : String} {u : Url} (h : parse text = .ok u) {a : Authority}
    (ha : u.authority = some a) :
    if u.scheme = "file" then a.port = none
    else ∃ front rest, cutAuthority u.scheme front = .ok (a, rest) := by
  unfold parse at h
  split at h
  · cases h
  · obtain ⟨rfl, hcut⟩ := of_parseAfterScheme h
    exact hcut a ha

/-- A scheme without rules of its own has plain hosts and ports of 16 bits. -/
theorem of_parse {text : String} {u : Url} (h : parse text = .ok u)
    (hplain : isSpecialScheme u.scheme = false) :
    (∀ host, u.host? = some host → host.Plain) ∧ ∀ n, u.port? = some n → n < 0x10000 := by
  have hcut : ∀ a, u.authority = some a →
      ∃ front rest, cutAuthority u.scheme front = .ok (a, rest) := by
    intro a ha
    have hauthority := authority_of_parse h ha
    rwa [if_neg (ne_file_of_plain hplain)] at hauthority
  refine ⟨?_, ?_⟩
  · intro host hhost
    obtain ⟨a, ha, hhost⟩ := Option.bind_eq_some_iff.mp hhost
    obtain ⟨front, rest, hfront⟩ := hcut a ha
    have hread := (of_cutAuthority hfront).1 host hhost
    rw [hplain, if_neg Bool.false_ne_true] at hread
    obtain ⟨text, htext⟩ := hread
    exact plain_of_parsePlain htext
  · intro n hn
    obtain ⟨a, ha, hn⟩ := Option.bind_eq_some_iff.mp hn
    obtain ⟨front, rest, hfront⟩ := hcut a ha
    exact (of_cutAuthority hfront).2 n hn

end MeshNode.Url
