import MeshNode.Proofs.Url.Authority

/-!
# Hosts of every scheme

Whatever its scheme, a URL has no host whose text holds a character that no host may contain,
such as a bracket.

* **Punycode** — `mem_encode`: it adds letters, digits and hyphens;
* **domains** — `isForbidden_of_mem_domainToAscii`;
* **every scheme** — `IsClean`; `isClean_of_endpoint?`: the host that an endpoint names.
-/

namespace MeshNode

open MeshNode.Text

/-! ## Punycode -/

namespace Text.Punycode

theorem isAlphanum_digit {value : Nat} (h : value < 36) : (digit value).isAlphanum = true := by
  have hall : ∀ v : Fin 36, (digit v).isAlphanum = true := by decide
  exact hall ⟨value, h⟩

theorem threshold_le (bias position : Nat) : threshold bias position ≤ 26 := by
  unfold threshold
  omega

theorem isAlphanum_of_mem_digits {bias position value : Nat} {c : Char}
    (h : c ∈ digits bias position value) : c.isAlphanum = true := by
  fun_induction digits bias position value with
  | case1 position value t hlt =>
    have ht : t ≤ 26 := threshold_le bias position
    rw [List.mem_singleton.mp h]
    exact isAlphanum_digit (by omega)
  | case2 position value t hge ih =>
    have ht : t ≤ 26 := threshold_le bias position
    have hmod : (value - t) % (36 - t) < 36 - t := Nat.mod_lt _ (by omega)
    rcases List.mem_cons.mp h with rfl | h
    · exact isAlphanum_digit (by omega)
    · exact ih h

/-- Whether an encoding under way has put out letters and digits only. -/
def State.IsPlain (s : State) : Prop := ∀ c ∈ s.output, c.isAlphanum = true

theorem State.IsPlain.visit {s : State} (h : s.IsPlain) (basic : Nat) (c : Char) :
    (s.visit basic c).IsPlain := by
  unfold State.visit
  split
  · exact h
  · split
    · intro d hd
      rcases List.mem_append.mp hd with hd | hd
      · exact h d hd
      · exact isAlphanum_of_mem_digits hd
    · exact h

theorem State.IsPlain.foldl_visit {s : State} (h : s.IsPlain) (basic : Nat) (text : List Char) :
    (text.foldl (State.visit basic) s).IsPlain := by
  induction text generalizing s with
  | nil => exact h
  | cons c text ih => exact ih (h.visit basic c)

theorem State.IsPlain.foldl_insert {s : State} (h : s.IsPlain) (text : List Char) (basic : Nat)
    (others : List Char) : (others.foldl (State.insert text basic) s).IsPlain := by
  induction others generalizing s with
  | nil => exact h
  | cons c others ih =>
    refine ih ?_
    have hcome : State.IsPlain
        { s with code := c.toNat, passed := s.passed + (c.toNat - s.code) * (s.placed + 1) } := h
    exact hcome.foldl_visit basic text

theorem mem_encode {text : List Char} {c : Char} (h : c ∈ encode text) :
    c ∈ text ∨ c = '-' ∨ c.isAlphanum = true := by
  rw [encode] at h
  rcases List.mem_append.mp h with h | h
  · rcases List.mem_append.mp h with h | h
    · exact Or.inl (List.mem_filter.mp h).1
    · split at h
      · exact absurd h List.not_mem_nil
      · exact Or.inr (Or.inl (List.mem_singleton.mp h))
  · refine Or.inr (Or.inr (State.IsPlain.foldl_insert ?_ _ _ _ c h))
    exact fun _ hd => absurd hd List.not_mem_nil

end Text.Punycode

/-! ## Domains -/

namespace Host

theorem isForbidden_of_isAlphanum {c : Char} (h : c.isAlphanum = true) :
    isForbidden c = false := by
  have hclass : (! isForbidden c) = true :=
    ascii_imp (p := Char.isAlphanum) (q := (! isForbidden ·)) (by decide) (lt_of_isAlphanum h) h
  simpa using hclass

theorem isForbidden_of_isDomainChar {c : Char} (h : isDomainChar c = true) :
    isForbidden c = false := by
  rw [isDomainChar] at h
  split at h
  · simp only [isForbiddenInDomain, Bool.not_eq_true', Bool.or_eq_false_iff] at h
    exact h.1.2
  · next hbeyond =>
    -- the characters that no host may contain are all of ASCII
    have hall : "\x00\t\n\r #/:<>?@[\\]^|".toList.all (fun d => d.toNat < 128) = true := by decide
    rw [isForbidden, Bool.eq_false_iff, ne_eq, List.contains_iff_mem]
    intro hmem
    exact hbeyond (of_decide_eq_true (List.all_eq_true.mp hall c hmem))

theorem isForbidden_of_mem_labelToAscii {label : List Char}
    (h : ∀ c ∈ label, isForbidden c = false) {c : Char} (hc : c ∈ labelToAscii label) :
    isForbidden c = false := by
  rw [labelToAscii] at hc
  split at hc
  · rcases List.mem_append.mp hc with hc | hc
    · have hmark : ∀ d ∈ "xn--".toList, isForbidden d = false :=
        List.all_iff_forall_prop.mp (by decide)
      exact hmark c hc
    · rcases Punycode.mem_encode hc with hc | rfl | hc
      · exact h c hc
      · decide
      · exact isForbidden_of_isAlphanum hc
  · exact h c hc

theorem isForbidden_of_mem_domainToAscii {bytes : List UInt8} {s : List Char}
    (h : domainToAscii bytes = .ok s) {c : Char} (hc : c ∈ s) : isForbidden c = false := by
  unfold domainToAscii at h
  split at h
  · cases h
  · dsimp only at h
    split at h
    · next hall =>
      cases h
      rcases mem_intercalate hc with rfl | ⟨piece, hpiece, hc⟩
      · decide
      · obtain ⟨label, hlabel, rfl⟩ := List.mem_map.mp hpiece
        refine isForbidden_of_mem_labelToAscii (fun d hd => ?_) hc
        exact isForbidden_of_isDomainChar
          (List.all_eq_true.mp hall d (mem_of_mem_splitAt hlabel hd))
    · cases h

/-! ## Every scheme -/

/-- Whether the text of a host holds none of the characters that no host may contain, the brackets
and colons of an IPv6 address apart. -/
def IsClean : Host → Prop
  | .name text => ∀ c ∈ text.toList, isForbidden c = false
  | .ipv4 _ => True
  | .ipv6 _ => True

theorem Plain.isClean {host : Host} (h : host.Plain) : host.IsClean := by
  cases h with
  | name _ hs =>
    intro c hc
    rw [String.toList_ofList] at hc
    have hname := hs c hc
    simp only [isNameChar, Bool.and_eq_true, Bool.not_eq_true'] at hname
    exact hname.2
  | ipv6 a => trivial

theorem isClean_of_parseBracketed {s : List Char} {host : Host}
    (h : parseBracketed s = .ok host) : host.IsClean := by
  unfold parseBracketed at h
  split at h
  · split at h
    · cases h
      trivial
    · cases h
  · cases h

theorem isClean_of_parseDomain {s : List Char} {host : Host} (h : parseDomain s = .ok host) :
    host.IsClean := by
  unfold parseDomain at h
  split at h
  · exact isClean_of_parseBracketed h
  · obtain ⟨domain, hdomain, h⟩ := bind_eq_ok.mp h
    split at h
    · cases h
    · split at h
      · unfold parseNumeric at h
        dsimp only at h
        split at h
        · cases h
          trivial
        · cases h
      · cases h
        intro c hc
        rw [String.toList_ofList] at hc
        exact isForbidden_of_mem_domainToAscii hdomain hc

end Host

/-- The endpoint of a URL is the text of a clean host, a colon and a port of 16 bits. -/
theorem Url.isClean_of_endpoint? {text target : String} {u : Url} (h : Url.parse text = .ok u)
    (htarget : u.endpoint? = some target) :
    ∃ host n, u.host? = some host ∧ u.port? = some n ∧ host.IsClean ∧ n < 0x10000 ∧
      target = addressText host n := by
  simp only [Url.endpoint?, Url.hostText?, Option.bind_eq_bind, Option.bind_eq_some_iff,
    Option.map_eq_some_iff] at htarget
  obtain ⟨_, ⟨host, hhost, rfl⟩, n, hn, htext⟩ := htarget
  obtain ⟨a, ha, hahost⟩ := Option.bind_eq_some_iff.mp hhost
  have haport : a.port = some n := by
    rw [Url.port?, ha] at hn
    exact hn
  have hcut := authority_of_parse h ha
  split at hcut
  · rw [hcut] at haport
    cases haport
  obtain ⟨front, rest, hfront⟩ := hcut
  obtain ⟨hhosts, hports⟩ := of_cutAuthority hfront
  have hread := hhosts host hahost
  refine ⟨host, n, hhost, hn, ?_, hports n haport, (Option.some.inj htext).symm⟩
  split at hread
  · obtain ⟨_, hdomain⟩ := hread
    exact Host.isClean_of_parseDomain hdomain
  · obtain ⟨_, hplain⟩ := hread
    exact (Host.plain_of_parsePlain hplain).isClean

end MeshNode
