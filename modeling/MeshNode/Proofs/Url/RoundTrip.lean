import MeshNode.Proofs.Text.Percent
import MeshNode.Proofs.Url.Paths

/-!
# URLs, written and read back

A URL of a scheme without rules of its own that names a host and a port is read back from its text
as it was. Its parts have been encoded when it was read, so encoding them once more changes
nothing, and none of them holds a character that ends it.

* **stable texts** — `Stable`: nothing is left to encode; `stable_encodePart`, and
  `Stable.encodePart_eq`: encoding again does nothing;
* **dots** — `isDot_percentEncode`, `isDotDot_percentEncode`: no segment becomes one of dots by
  being encoded;
* **one part after another** — `cutUserinfo_text`, `pathAfterAuthority_segments`, `cutTail_marked`;
* **the round trip** — `parse_render`.
-/

namespace MeshNode.Url

open MeshNode.Text MeshNode.Host

variable {encoded : Char → Bool} {c d : Char} {s t w : List Char}

/-! ## Stable texts -/

/-- Whether a text holds nothing to encode. -/
def Stable (encoded : Char → Bool) (text : String) : Prop :=
  ∀ c ∈ text.toList, encoded c = false ∧ c.toNat < 0x80

theorem stable_empty (encoded : Char → Bool) : Stable encoded "" := nofun

theorem Stable.isGraphic {text : String} (h : Stable encoded text) (hclass : IsClass encoded)
    (hc : c ∈ text.toList) : isGraphic c = true :=
  hclass.covers c (h c hc).2 (h c hc).1

/-- A text does not hold what its class would encode. -/
theorem Stable.ne {text : String} (h : Stable encoded text) (hc : c ∈ text.toList)
    (hd : encoded d = true) : c ≠ d := by
  rintro rfl
  rw [(h c hc).1] at hd
  cases hd

/-- What has been encoded holds nothing more to encode. -/
theorem stable_encodePart (hclass : IsClass encoded) (s : List Char) :
    Stable encoded (encodePart encoded s) := by
  intro c hc
  rw [encodePart, String.toList_ofList] at hc
  rcases mem_percentEncode hc with hescape | ⟨-, hplain⟩
  · refine ⟨hclass.spares c hescape, ?_⟩
    rcases hescape with rfl | hhex
    · decide
    · exact lt_of_isHex hhex
  · exact hplain

theorem Stable.encodePart_eq {text : String} (h : Stable encoded text) :
    encodePart encoded text.toList = text := by
  rw [encodePart, percentEncode_eq_self h, String.ofList_toList]

/-! ## Dots -/

theorem utf8Char_eq_cons (c : Char) : ∃ b bytes, utf8Char c = b :: bytes ∧
    (b.toNat < 0x80 → c.toNat = b.toNat) := by
  rcases utf8Char_cases c with ⟨hc, hoctets⟩ | ⟨hc, hc', hoctets⟩ | ⟨hc, hc', hoctets⟩ |
    ⟨hc, hc', hoctets⟩
  · refine ⟨_, _, hoctets, fun _ => ?_⟩
    rw [UInt8.toNat_ofNat_of_lt' (Nat.lt_trans hc (by decide))]
  · refine ⟨_, _, hoctets, fun hlt => ?_⟩
    rw [UInt8.toNat_ofNat_of_lt' (by show _ < 256; omega)] at hlt
    omega
  · refine ⟨_, _, hoctets, fun hlt => ?_⟩
    rw [UInt8.toNat_ofNat_of_lt' (by show _ < 256; omega)] at hlt
    omega
  · refine ⟨_, _, hoctets, fun hlt => ?_⟩
    rw [UInt8.toNat_ofNat_of_lt' (by show _ < 256; omega)] at hlt
    omega

/-- An encoded text begins with the first character of the text or with an escape for it. -/
theorem percentEncode_eq_cons (h : percentEncode encoded s = d :: w) :
    (∃ t, s = d :: t ∧ w = percentEncode encoded t) ∨
      d = '%' ∧ ∃ (c : Char) (b : UInt8) (v : List Char),
        (encoded c = true ∨ 0x80 ≤ c.toNat) ∧ (b.toNat < 0x80 → c.toNat = b.toNat) ∧
          w = hexCharUpper (b.toNat / 16) :: hexCharUpper (b.toNat % 16) :: v := by
  cases s with
  | nil => cases h
  | cons c s =>
    rw [percentEncode, List.flatMap_cons] at h
    split at h
    · next hencoded =>
      obtain ⟨b, bytes, hoctets, hsmall⟩ := utf8Char_eq_cons c
      rw [hoctets, List.flatMap_cons, percentOctet] at h
      simp only [Bool.or_eq_true, decide_eq_true_eq] at hencoded
      obtain ⟨rfl, rfl⟩ := List.cons.inj h
      exact Or.inr ⟨rfl, c, b, _, hencoded, hsmall, rfl⟩
    · obtain ⟨rfl, rfl⟩ := List.cons.inj h
      exact Or.inl ⟨s, rfl, rfl⟩

theorem eq_cons_of_percentEncode (hd : d ≠ '%') (h : percentEncode encoded s = d :: w) :
    ∃ t, s = d :: t ∧ w = percentEncode encoded t := by
  rcases percentEncode_eq_cons h with hplain | ⟨hpercent, -⟩
  · exact hplain
  · exact absurd hpercent hd

/-- An escape for a dot has not come from encoding one, as dots are not encoded. -/
theorem eq_escapedDot_of_percentEncode (hdot : encoded '.' = false) (hx : d = 'e' ∨ d = 'E')
    (h : percentEncode encoded s = '%' :: '2' :: d :: w) :
    ∃ t, s = '%' :: '2' :: d :: t ∧ w = percentEncode encoded t := by
  have hne : d ≠ '%' := by
    rintro rfl
    exact absurd hx (by decide)
  rcases percentEncode_eq_cons h with ⟨s₁, rfl, h₁⟩ | ⟨-, c, b, v, hencoded, hsmall, hescape⟩
  · obtain ⟨s₂, rfl, h₂⟩ := eq_cons_of_percentEncode (by decide) h₁.symm
    obtain ⟨s₃, rfl, h₃⟩ := eq_cons_of_percentEncode hne h₂.symm
    exact ⟨s₃, rfl, h₃⟩
  · have hdigits : ∀ hi lo : Fin 16, hexCharUpper hi = '2' →
        hexCharUpper lo = 'e' ∨ hexCharUpper lo = 'E' → 16 * hi.val + lo.val = '.'.toNat := by
      decide
    have hb : b.toNat < 256 := b.toNat_lt
    obtain ⟨htwo, hrest⟩ := List.cons.inj hescape
    obtain ⟨rfl, -⟩ := List.cons.inj hrest
    have hdotted : 16 * (b.toNat / 16) + b.toNat % 16 = '.'.toNat :=
      hdigits ⟨b.toNat / 16, by omega⟩ ⟨b.toNat % 16, by omega⟩ htwo.symm hx
    rw [Nat.div_add_mod] at hdotted
    have hc : c.toNat = '.'.toNat := (hsmall (by rw [hdotted]; decide)).trans hdotted
    obtain rfl := Char.toNat_inj.mp hc
    rcases hencoded with hencoded | hlarge
    · exact absurd (hencoded.symm.trans hdot) (by decide)
    · exact absurd hlarge (by decide)

/-- A dot at the front of an encoded text is one at the front of the text. -/
theorem dropDot?_percentEncode (hdot : encoded '.' = false)
    (h : dropDot? (percentEncode encoded s) = some w) :
    ∃ t, dropDot? s = some t ∧ w = percentEncode encoded t := by
  unfold dropDot? at h
  split at h
  · next hcut =>
    cases h
    obtain ⟨t, rfl, hw⟩ := eq_cons_of_percentEncode (by decide) hcut
    exact ⟨t, rfl, hw⟩
  · next hcut =>
    cases h
    obtain ⟨t, rfl, hw⟩ := eq_escapedDot_of_percentEncode hdot (Or.inl rfl) hcut
    exact ⟨t, rfl, hw⟩
  · next hcut =>
    cases h
    obtain ⟨t, rfl, hw⟩ := eq_escapedDot_of_percentEncode hdot (Or.inr rfl) hcut
    exact ⟨t, rfl, hw⟩
  · cases h

theorem isDot_percentEncode (hdot : encoded '.' = false) (h : isDot s = false) :
    isDot (percentEncode encoded s) = false := by
  refine Bool.eq_false_iff.mpr fun hencoded => Bool.eq_false_iff.mp h ?_
  obtain ⟨t, ht, hnil⟩ := dropDot?_percentEncode hdot (beq_iff_eq.mp hencoded)
  rw [isDot, ht, eq_nil_of_percentEncode hnil.symm]
  rfl

theorem isDotDot_percentEncode (hdot : encoded '.' = false) (h : isDotDot s = false) :
    isDotDot (percentEncode encoded s) = false := by
  refine Bool.eq_false_iff.mpr fun hencoded => Bool.eq_false_iff.mp h ?_
  obtain ⟨w, hw, hrest⟩ := Option.bind_eq_some_iff.mp (beq_iff_eq.mp hencoded)
  obtain ⟨t, ht, rfl⟩ := dropDot?_percentEncode hdot hw
  obtain ⟨u, hu, hnil⟩ := dropDot?_percentEncode hdot hrest
  rw [isDotDot, ht, Option.bind_some, hu, eq_nil_of_percentEncode hnil.symm]
  rfl

/-! ## Segments -/

/-- A segment as it stands in a path: encoded, and neither a separator nor dots. -/
structure StableSegment (p : String) : Prop where
  stable : Stable encodedInPath p
  whole : '/' ∉ p.toList
  notDot : isDot p.toList = false
  notDotDot : isDotDot p.toList = false

theorem stableSegment_empty : StableSegment "" where
  stable := stable_empty _
  whole := List.not_mem_nil
  notDot := rfl
  notDotDot := rfl

theorem stableSegment_encodePart (hs : '/' ∉ s) (hdot : isDot s = false)
    (hdotdot : isDotDot s = false) : StableSegment (encodePart encodedInPath s) where
  stable := stable_encodePart isClass_path s
  whole hslash := (ne_of_mem_encodePart hs hslash).1 rfl
  notDot := by
    rw [encodePart, String.toList_ofList]
    exact isDot_percentEncode (by decide) hdot
  notDotDot := by
    rw [encodePart, String.toList_ofList]
    exact isDotDot_percentEncode (by decide) hdotdot

/-- Every segment that is read is stable. -/
theorem stableSegment_of_mem {p : String} (h : p ∈ segmentsOf false false s) : StableSegment p := by
  rcases mem_addSegments h with h | rfl | ⟨piece, hpiece, hdot, hdotdot, rfl⟩
  · exact absurd h List.not_mem_nil
  · exact stableSegment_empty
  · exact stableSegment_encodePart (not_mem_of_mem_splitAt hpiece) hdot hdotdot

theorem addSegment_stable {p : String} (h : StableSegment p) (parts : List String) (final : Bool) :
    addSegment false parts p.toList final = parts ++ [p] := by
  rw [addSegment, h.notDotDot, h.notDot, h.stable.encodePart_eq]
  rfl

/-- Stable segments are taken as they are. -/
theorem addSegments_stable {more : List String} (h : ∀ p ∈ more, StableSegment p)
    (parts : List String) : addSegments false parts (more.map String.toList) = parts ++ more := by
  induction more generalizing parts with
  | nil => rw [List.map_nil, addSegments, List.append_nil]
  | cons p more ih =>
    have hp := h p List.mem_cons_self
    cases more with
    | nil => exact addSegment_stable hp parts true
    | cons q more =>
      have hmore := ih fun r hr => h r (List.mem_cons_of_mem p hr)
      rw [List.map_cons, List.map_cons, addSegments, addSegment_stable hp, ← List.map_cons, hmore,
        List.append_assoc, List.singleton_append]
      exact List.cons_ne_nil _ _

/-- The text of some segments, after the first slash. -/
theorem toList_render_cons (p : String) (parts : List String) :
    (UrlPath.segments (p :: parts)).render.toList =
      '/' :: ['/'].intercalate ((p :: parts).map String.toList) := by
  rw [toList_render_segments]
  induction parts generalizing p with
  | nil => simp
  | cons q parts ih =>
    rw [List.flatMap_cons, ih q]
    simp only [List.map_cons, List.intercalate_cons_cons, List.cons_append, List.append_assoc,
      List.nil_append]

/-- A path of stable segments is read as it is written. -/
theorem pathAfterAuthority_segments {parts : List String} (h : ∀ p ∈ parts, StableSegment p) :
    pathAfterAuthority false (UrlPath.segments parts).render.toList = .segments parts := by
  cases parts with
  | nil => rfl
  | cons p parts =>
    have hpieces : ∀ piece ∈ (p :: parts).map String.toList, '/' ∉ piece := by
      intro piece hpiece
      obtain ⟨q, hq, rfl⟩ := List.mem_map.mp hpiece
      exact (h q hq).whole
    rw [toList_render_cons]
    show UrlPath.segments (addSegments false []
      (splitAt '/' (['/'].intercalate ((p :: parts).map String.toList)))) = _
    rw [splitAt_intercalate (by simp) hpieces, addSegments_stable h, List.nil_append]

theorem exists_segments_of_pathAfterAuthority (s : List Char) :
    ∃ parts, pathAfterAuthority false s = .segments parts ∧ ∀ p ∈ parts, StableSegment p := by
  unfold pathAfterAuthority
  split
  · exact ⟨[], rfl, nofun⟩
  · split
    · exact ⟨_, rfl, fun p hp => stableSegment_of_mem hp⟩
    · exact ⟨_, rfl, fun p hp => stableSegment_of_mem hp⟩

/-! ## Query and fragment -/

/-- A part behind its mark, if there is one. -/
def marked (mark : Char) : Option String → List Char
  | none => []
  | some text => mark :: text.toList

theorem breakAt_marked (query fragment : Option String) {s : List Char}
    (hs : ∀ c ∈ s, endsPath c = false) :
    breakAt endsPath (s ++ (marked '?' query ++ marked '#' fragment)) =
      (s, marked '?' query ++ marked '#' fragment) := by
  refine breakAt_append hs ?_
  cases query with
  | some text => rfl
  | none => cases fragment <;> rfl

/-- A query and a fragment are read as they are written. -/
theorem cutTail_marked {query fragment : Option String}
    (hquery : ∀ text, query = some text → Stable (encodedInQuery false) text)
    (hfragment : ∀ text, fragment = some text → Stable encodedInFragment text) :
    cutTail false (marked '?' query ++ marked '#' fragment) = (query, fragment) := by
  cases query with
  | none =>
    cases fragment with
    | none => rfl
    | some text =>
      have hcut : cutTail false ('#' :: text.toList) =
          (none, some (encodePart encodedInFragment text.toList)) := rfl
      rw [(hfragment text rfl).encodePart_eq] at hcut
      exact hcut
  | some text =>
    have htext := hquery text rfl
    have hbreak : breakAt (· == '#') (text.toList ++ marked '#' fragment) =
        (text.toList, marked '#' fragment) := by
      refine breakAt_append (fun c hc => ?_) (by cases fragment <;> rfl)
      exact beq_eq_false_iff_ne.mpr (htext.ne hc (by decide))
    rw [marked, List.cons_append, cutTail, hbreak]
    dsimp only
    rw [htext.encodePart_eq]
    cases fragment with
    | none => rfl
    | some rest =>
      exact congrArg (fun kept => (some text, some kept)) (hfragment rest rfl).encodePart_eq

/-- The query and the fragment that are read are stable. -/
theorem stable_cutTail (s : List Char) :
    (∀ text, (cutTail false s).1 = some text → Stable (encodedInQuery false) text) ∧
      ∀ text, (cutTail false s).2 = some text → Stable encodedInFragment text := by
  have hfragment : ∀ rest text, some (encodePart encodedInFragment rest) = some text →
      Stable encodedInFragment text := by
    rintro rest _ ⟨⟩
    exact stable_encodePart isClass_fragment rest
  unfold cutTail
  split
  · dsimp only
    refine ⟨?_, fun text h => ?_⟩
    · rintro _ ⟨⟩
      exact stable_encodePart isClass_query _
    · split at h
      · exact hfragment _ text h
      · cases h
  · refine ⟨nofun, fun text h => ?_⟩
    dsimp only at h
    split at h
    · exact hfragment _ text h
    · cases h

/-! ## User and password -/

/-- The user and the password that are read are stable. -/
theorem stable_cutUserinfo {username password : String}
    (h : cutUserinfo false s = .ok (username, password, t)) :
    Stable encodedInUserinfo username ∧ Stable encodedInUserinfo password := by
  unfold cutUserinfo at h
  dsimp only at h
  split at h
  · cases h
    exact ⟨stable_empty _, stable_empty _⟩
  · split at h
    · cases h
    · cases h
      exact ⟨stable_empty _, stable_empty _⟩
  · cases h
    exact ⟨stable_encodePart isClass_userinfo _, stable_encodePart isClass_userinfo _⟩

/-- A user is cut off at the last at sign. -/
theorem cutUserinfo_at {info tail : List Char} (hne : info ≠ [])
    (hinfo : ∀ c ∈ info, endsAuthority false c = false) (hs : ∀ c ∈ s, isBareChar c = true)
    (htail : tail.head?.all (endsAuthority false) = true) {user password : List Char}
    (hsplit : (splitFirst? ':' info).getD (info, []) = (user, password)) :
    cutUserinfo false (info ++ '@' :: (s ++ tail)) =
      .ok (encodePart encodedInUserinfo user, encodePart encodedInUserinfo password,
        s ++ tail) := by
  have hbreak : breakAt (endsAuthority false) (info ++ '@' :: (s ++ tail)) =
      (info ++ '@' :: s, tail) := by
    rw [← List.cons_append, ← List.append_assoc]
    refine breakAt_append (fun c hc => ?_) htail
    rcases List.mem_append.mp hc with hc | hc
    · exact hinfo c hc
    · rcases List.mem_cons.mp hc with rfl | hc
      · decide
      · exact endsAuthority_of_isBareChar (hs c hc)
  have hat : '@' ∉ s := fun hmem => ne_of_isBareChar (hs '@' hmem) (by decide) rfl
  obtain ⟨c, front, rfl⟩ := List.exists_cons_of_ne_nil hne
  rw [cutUserinfo, hbreak]
  dsimp only
  rw [splitLast?_append _ hat]
  dsimp only
  rw [hsplit]

theorem endsAuthority_of_stable {text : String} (h : Stable encodedInUserinfo text)
    (hc : c ∈ text.toList) : endsAuthority false c = false := by
  have hslash : c ≠ '/' := h.ne hc (by decide)
  have hquestion : c ≠ '?' := h.ne hc (by decide)
  have hhash : c ≠ '#' := h.ne hc (by decide)
  simp [endsAuthority, hslash, hquestion, hhash]

/-- A user and a password are read as they are written. -/
theorem cutUserinfo_text {a : Authority} {tail : List Char}
    (huser : Stable encodedInUserinfo a.username)
    (hpassword : Stable encodedInUserinfo a.password) (hs : ∀ c ∈ s, isBareChar c = true)
    (htail : tail.head?.all (endsAuthority false) = true) :
    cutUserinfo false ((userinfoText a).toList ++ (s ++ tail)) =
      .ok (a.username, a.password, s ++ tail) := by
  have hcolon : ':' ∉ a.username.toList := fun hmem => huser.ne hmem (by decide) rfl
  unfold userinfoText
  split
  · next hnone =>
    rw [hnone.1, hnone.2]
    have hcut := cutUserinfo_append hs htail
    exact hcut
  next hsome =>
  have hends : ∀ c ∈ a.username.toList, endsAuthority false c = false :=
    fun c hc => endsAuthority_of_stable huser hc
  split
  · next hempty =>
    have hne : a.username.toList ≠ [] := by
      intro hnil
      exact hsome ⟨String.toList_eq_nil_iff.mp hnil, hempty⟩
    have hsplit : (splitFirst? ':' a.username.toList).getD (a.username.toList, []) =
        (a.username.toList, []) := by
      rw [splitFirst?_eq_none hcolon]
      rfl
    have hcut := cutUserinfo_at hne hends hs htail hsplit
    rw [huser.encodePart_eq] at hcut
    rw [hempty, String.toList_append, List.append_assoc]
    exact hcut
  · have hsplit : (splitFirst? ':' (a.username.toList ++ ':' :: a.password.toList)).getD
        (a.username.toList ++ ':' :: a.password.toList, []) =
        (a.username.toList, a.password.toList) := by
      rw [splitFirst?_append hcolon]
      rfl
    have hinfo : ∀ c ∈ a.username.toList ++ ':' :: a.password.toList,
        endsAuthority false c = false := by
      intro c hc
      rcases List.mem_append.mp hc with hc | hc
      · exact hends c hc
      · rcases List.mem_cons.mp hc with rfl | hc
        · decide
        · exact endsAuthority_of_stable hpassword hc
    have hcut := cutUserinfo_at (by simp) hinfo hs htail hsplit
    rw [huser.encodePart_eq, hpassword.encodePart_eq, List.append_assoc] at hcut
    rw [String.toList_append, String.toList_append, String.toList_append, List.append_assoc,
      List.append_assoc, List.append_assoc]
    exact hcut

theorem stable_cutAuthority {scheme : String} {a : Authority}
    (hplain : isSpecialScheme scheme = false) (h : cutAuthority scheme s = .ok (a, t)) :
    Stable encodedInUserinfo a.username ∧ Stable encodedInUserinfo a.password := by
  unfold cutAuthority at h
  rw [hplain] at h
  obtain ⟨⟨username, password, front⟩, huser, h⟩ := bind_eq_ok.mp h
  dsimp only at h
  rw [if_neg Bool.false_ne_true] at h
  obtain ⟨host, -, h⟩ := bind_eq_ok.mp h
  split at h
  · cases h
  · obtain ⟨⟨port, rest⟩, -, h⟩ := bind_eq_ok.mp h
    cases h
    exact stable_cutUserinfo huser

/-! ## Whole URLs -/

/-- A URL with its parts as they stand once it has been read: a plain host, a port, and texts with
nothing left to encode. -/
structure Written (u : Url) (a : Authority) (host : Host) (n : Nat) (parts : List String) :
    Prop where
  authority : u.authority = some a
  named : a.host = some host
  plain : host.Plain
  ported : a.port = some n
  bound : n < 0x10000
  username : Stable encodedInUserinfo a.username
  password : Stable encodedInUserinfo a.password
  path : u.path = .segments parts
  segments : ∀ p ∈ parts, StableSegment p
  query : ∀ text, u.query = some text → Stable (encodedInQuery false) text
  fragment : ∀ text, u.fragment = some text → Stable encodedInFragment text

variable {u : Url} {a : Authority} {host : Host} {n : Nat} {parts : List String}

/-- The path, the query and the fragment of a URL are cut from what follows its authority. -/
theorem parts_of_parseAfterScheme {scheme : String} (hplain : isSpecialScheme scheme = false)
    (h : parseAfterScheme scheme s = .ok u) (ha : u.authority = some a) :
    ∃ front rest, cutAuthority scheme front = .ok (a, rest) ∧
      u.path = pathAfterAuthority false (breakAt endsPath rest).1 ∧
      u.query = (cutTail false (breakAt endsPath rest).2).1 ∧
      u.fragment = (cutTail false (breakAt endsPath rest).2).2 := by
  unfold parseAfterScheme at h
  dsimp only at h
  rw [if_neg (ne_file_of_plain hplain), hplain] at h
  split at h
  · next front _ =>
    obtain ⟨⟨authority, rest⟩, hcut, h⟩ := bind_eq_ok.mp h
    cases h
    cases ha
    exact ⟨front, rest, hcut, rfl, rfl, rfl⟩
  · cases h
    cases ha

/-- Whatever is read is as it will be written. -/
theorem written_of_parse {text : String} (h : parse text = .ok u)
    (hplain : isSpecialScheme u.scheme = false) (hhost : u.host? = some host)
    (hport : u.port? = some n) : ∃ a parts, u.Written a host n parts := by
  obtain ⟨hhosts, hports⟩ := of_parse h hplain
  obtain ⟨a, ha, hnamed⟩ := Option.bind_eq_some_iff.mp hhost
  obtain ⟨a', ha', hported⟩ := Option.bind_eq_some_iff.mp hport
  obtain rfl := Option.some.inj (ha.symm.trans ha')
  unfold parse at h
  split at h
  · cases h
  · obtain ⟨hscheme, -⟩ := of_parseAfterScheme h
    rw [← hscheme] at h
    obtain ⟨front, rest, hcut, hpath, hquery, hfragment⟩ := parts_of_parseAfterScheme hplain h ha
    obtain ⟨huser, hpassword⟩ := stable_cutAuthority hplain hcut
    obtain ⟨parts, hparts, hsegments⟩ :=
      exists_segments_of_pathAfterAuthority (breakAt endsPath rest).1
    obtain ⟨hqueries, hfragments⟩ := stable_cutTail (breakAt endsPath rest).2
    rw [← hquery] at hqueries
    rw [← hfragment] at hfragments
    exact ⟨a, parts, ha, hnamed, hhosts host hhost, hported, hports n hport, huser, hpassword,
      hpath.trans hparts, hsegments, hqueries, hfragments⟩

/-- The text of a URL from its path on. -/
def tailText (u : Url) : List Char :=
  u.path.render.toList ++ (marked '?' u.query ++ marked '#' u.fragment)

theorem toList_markedText {mark : String} (hmark : mark.toList = [c]) (part : Option String) :
    ((part.map (mark ++ ·)).getD "").toList = marked c part := by
  cases part with
  | none => rfl
  | some text =>
    rw [Option.map_some, Option.getD_some, String.toList_append, hmark]
    rfl

theorem isGraphic_of_mem_marked {text : Option String} (hclass : IsClass encoded)
    (hstable : ∀ t, text = some t → Stable encoded t) (hd : Host.isGraphic d = true)
    (hc : c ∈ marked d text) : Host.isGraphic c = true := by
  cases text with
  | none => exact absurd hc List.not_mem_nil
  | some t =>
    rcases List.mem_cons.mp hc with rfl | hc
    · exact hd
    · exact (hstable t rfl).isGraphic hclass hc

theorem isGraphic_of_mem_userinfoText (husername : Stable encodedInUserinfo a.username)
    (hpassword : Stable encodedInUserinfo a.password) (hc : c ∈ (userinfoText a).toList) :
    Host.isGraphic c = true := by
  unfold userinfoText at hc
  split at hc
  · exact absurd hc List.not_mem_nil
  split at hc
  · rw [String.toList_append, List.mem_append] at hc
    rcases hc with hc | hc
    · exact husername.isGraphic isClass_userinfo hc
    · obtain rfl := List.mem_singleton.mp hc
      decide
  · rw [String.toList_append, String.toList_append, String.toList_append, List.mem_append,
      List.mem_append, List.mem_append] at hc
    rcases hc with ((hc | hc) | hc) | hc
    · exact husername.isGraphic isClass_userinfo hc
    · obtain rfl := List.mem_singleton.mp hc
      decide
    · exact hpassword.isGraphic isClass_userinfo hc
    · obtain rfl := List.mem_singleton.mp hc
      decide

theorem mem_render_segments (h : c ∈ (UrlPath.segments parts).render.toList) :
    c = '/' ∨ ∃ p ∈ parts, c ∈ p.toList := by
  rw [toList_render_segments, List.mem_flatMap] at h
  obtain ⟨p, hp, hc⟩ := h
  rcases List.mem_cons.mp hc with rfl | hc
  · exact Or.inl rfl
  · exact Or.inr ⟨p, hp, hc⟩

namespace Written

theorem toList_render (h : u.Written a host n parts) :
    u.render.toList = u.scheme.toList ++ ':' :: '/' :: '/' ::
      ((userinfoText a).toList ++ ((addressText host n).toList ++ u.tailText)) := by
  have hguard : u.pathGuard = "" := by
    rw [pathGuard, h.authority]
  have hauthority : (u.authority.map authorityText).getD "" =
      "//" ++ userinfoText a ++ addressText host n := by
    rw [h.authority, Option.map_some, Option.getD_some, authorityText, h.named, h.ported,
      addressText]
    simp only [Option.map_some, Option.getD_some, String.append_assoc]
  have hquery : ((u.query.map ("?" ++ ·)).getD "").toList = marked '?' u.query :=
    toList_markedText rfl u.query
  have hfragment : ((u.fragment.map ("#" ++ ·)).getD "").toList = marked '#' u.fragment :=
    toList_markedText rfl u.fragment
  have hcolon : ":".toList = [':'] := rfl
  have hslashes : "//".toList = ['/', '/'] := rfl
  rw [render, hauthority, hguard, pathText, tailText]
  simp only [String.toList_append, hquery, hfragment, hcolon, hslashes, String.toList_empty,
    List.append_assoc, List.cons_append, List.nil_append, List.append_nil]

/-- What follows the port of a URL ends its authority. -/
theorem endsAuthority_tailText (h : u.Written a host n parts) :
    u.tailText.head?.all (endsAuthority false) = true := by
  rw [tailText, h.path]
  cases parts with
  | cons p parts =>
    rw [toList_render_cons]
    rfl
  | nil =>
    cases u.query with
    | some text => rfl
    | none => cases u.fragment <;> rfl

theorem isGraphic_of_mem_render (h : u.Written a host n parts) (hscheme : PlainScheme u.scheme)
    (hc : c ∈ u.render.toList) : Host.isGraphic c = true := by
  rw [h.toList_render, tailText, h.path] at hc
  simp only [List.mem_append, List.mem_cons] at hc
  rcases hc with hc | rfl | rfl | rfl | hc | hc | hc | hc | hc
  · exact isGraphic_of_isSchemeChar (List.all_eq_true.mp hscheme.chars c hc)
  · decide
  · decide
  · decide
  · exact isGraphic_of_mem_userinfoText h.username h.password hc
  · exact isGraphic_of_isBareChar (mem_addressText h.plain hc)
  · rcases mem_render_segments hc with rfl | ⟨p, hp, hc⟩
    · decide
    · exact (h.segments p hp).stable.isGraphic isClass_path hc
  · exact isGraphic_of_mem_marked isClass_query h.query (by decide) hc
  · exact isGraphic_of_mem_marked isClass_fragment h.fragment (by decide) hc

theorem breakAt_tailText (h : u.Written a host n parts) :
    breakAt endsPath u.tailText =
      (u.path.render.toList, marked '?' u.query ++ marked '#' u.fragment) := by
  refine breakAt_marked u.query u.fragment fun c hc => ?_
  rw [h.path] at hc
  rcases mem_render_segments hc with rfl | ⟨p, hp, hc⟩
  · decide
  · have hquestion : c ≠ '?' := (h.segments p hp).stable.ne hc (by decide)
    have hhash : c ≠ '#' := (h.segments p hp).stable.ne hc (by decide)
    simp [endsPath, hquestion, hhash]

/-- A URL is read as it is written. -/
theorem parse_render (h : u.Written a host n parts) (hscheme : PlainScheme u.scheme) :
    parse u.render = .ok u := by
  have hclean : clean u.render.toList = u.render.toList := by
    have hne : u.render.toList ≠ [] := by
      rw [h.toList_render]
      simp
    have happend := clean_append hne (fun c hc => h.isGraphic_of_mem_render hscheme hc) []
    rw [List.append_nil] at happend
    exact happend.trans (List.append_nil _)
  have huser := cutUserinfo_text h.username h.password
    (fun c hc => mem_addressText (n := n) h.plain hc) h.endsAuthority_tailText
  have hauthority := cutAuthority_of_cutUserinfo hscheme.plain h.plain h.bound
    h.endsAuthority_tailText huser
  have hpath : pathAfterAuthority false u.path.render.toList = u.path := by
    rw [h.path]
    exact pathAfterAuthority_segments h.segments
  have htail := cutTail_marked h.query h.fragment
  have ha : u.authority = some ⟨a.username, a.password, some host, some n⟩ := by
    rw [h.authority, ← h.named, ← h.ported]
  rw [parse, hclean, h.toList_render, cutScheme?_append hscheme]
  simp only [parseAfterScheme, if_neg (ne_file_of_plain hscheme.plain), hscheme.plain,
    Bool.false_eq_true, if_false, hauthority, ok_bind, h.breakAt_tailText, htail, hpath, ← ha]
  rfl

end Written

/-- What a URL was read from does not count: it is read again from its own text. -/
theorem parse_render {text : String} (h : parse text = .ok u) (hscheme : PlainScheme u.scheme)
    (hhost : u.host? = some host) (hport : u.port? = some n) : parse u.render = .ok u := by
  obtain ⟨a, parts, hwritten⟩ := written_of_parse h hscheme.plain hhost hport
  exact hwritten.parse_render hscheme

end MeshNode.Url
