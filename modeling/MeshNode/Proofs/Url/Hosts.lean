import MeshNode.Proofs.Net.Ipv6Text
import MeshNode.Proofs.Text.Percent
import MeshNode.Text.Blank
import MeshNode.Url.Host

/-!
# Plain hosts

The hosts that a scheme without rules of its own can have, and their texts.

* **what is read** — `plain_of_parsePlain`;
* **what is written** — `Plain.mem_render`: no character of a host ends an authority
  or is trimmed away;
* **the round trip** — `Plain.parsePlain_render`.
-/

namespace MeshNode.Host

open MeshNode.Text

/-! ## Characters -/

/-- Whether a character stands for itself in the name of a plain host. -/
def isNameChar (c : Char) : Bool := c.toNat < 0x80 && !isControl c && !isForbidden c

/-- Whether a character of ASCII is neither a control character nor a space. -/
def isGraphic (c : Char) : Bool := 0x20 < c.toNat && c.toNat < 0x7f

/-- Whether a character may stand in the text of an authority without a user. -/
def isBareChar (c : Char) : Bool := isGraphic c && !"/?#@".toList.contains c

theorem isGraphic_of_isBareChar {c : Char} (h : isBareChar c = true) : isGraphic c = true := by
  rw [isBareChar, Bool.and_eq_true] at h
  exact h.1

theorem isBlank_of_isGraphic {c : Char} (h : isGraphic c = true) : isBlank c = false := by
  simp only [isGraphic, Bool.and_eq_true, decide_eq_true_eq] at h
  simp [isBlank]
  omega

theorem lt_of_isNameChar {c : Char} (h : isNameChar c = true) : c.toNat < 128 := by
  simp only [isNameChar, Bool.and_eq_true, decide_eq_true_eq] at h
  exact h.1.1

theorem isBareChar_of_isNameChar {c : Char} (h : isNameChar c = true) : isBareChar c = true := by
  exact ascii_imp (by decide) (lt_of_isNameChar h) h

theorem isBareChar_of_isHex {c : Char} (h : isHex c = true) : isBareChar c = true := by
  exact ascii_imp (by decide) (lt_of_isHex h) h

theorem isBareChar_of_isDecimal {c : Char} (h : isDecimal c = true) : isBareChar c = true := by
  exact ascii_imp (by decide) (lt_of_isDecimal h) h

theorem ne_of_isBareChar {c d : Char} (h : isBareChar c = true) (hd : isBareChar d = false) :
    c ≠ d := by
  rintro rfl
  exact Bool.false_ne_true (hd.symm.trans h)

/-! ## Encoded names -/

/-- A text without forbidden characters is encoded as a name. -/
theorem isNameChar_percentEncode {s : List Char} (h : s.any isForbidden = false) {c : Char}
    (hc : c ∈ percentEncode isControl s) : isNameChar c = true := by
  rcases mem_percentEncode hc with (rfl | hhex) | ⟨hmem, hcontrol, hlt⟩
  · decide
  · exact ascii_imp (by decide) (lt_of_isHex hhex) hhex
  · have hforbidden : isForbidden c = false :=
      Bool.eq_false_iff.mpr (List.any_eq_false.mp h c hmem)
    rw [isNameChar, hforbidden, hcontrol, decide_eq_true hlt]
    rfl

/-- What stands for itself is left as it is. -/
theorem percentEncode_of_isNameChar {s : List Char} (h : ∀ c ∈ s, isNameChar c = true) :
    percentEncode isControl s = s := by
  refine percentEncode_eq_self fun c hc => ?_
  have hname := h c hc
  simp only [isNameChar, Bool.and_eq_true, decide_eq_true_eq, Bool.not_eq_true'] at hname
  exact ⟨hname.1.2, hname.1.1⟩

/-! ## Plain hosts -/

/-- Whether a host is one that a scheme without rules of its own can have. -/
inductive Plain : Host → Prop
  | name {s : List Char} (hne : s ≠ []) (h : ∀ c ∈ s, isNameChar c = true) :
      Plain (.name (String.ofList s))
  | ipv6 (a : Ipv6) : Plain (.ipv6 a)

theorem plain_of_parsePlain {s : List Char} {host : Host} (h : parsePlain s = .ok (some host)) :
    host.Plain := by
  unfold parsePlain at h
  split at h
  · cases h
  · next rest =>
    unfold parseBracketed at h
    split at h
    · split at h
      · next a _ =>
        cases h
        exact .ipv6 a
      · cases h
    · cases h
  · next hne _ =>
    split at h
    · cases h
    · next hforbidden =>
      cases h
      exact .name (fun hnil => hne (eq_nil_of_percentEncode hnil)) fun c hc =>
        isNameChar_percentEncode (Bool.eq_false_iff.mpr hforbidden) hc

theorem toList_render_ipv6 (a : Ipv6) :
    (Host.ipv6 a).render.toList = '[' :: (a.renderHex.toList ++ [']']) := by
  rw [render, String.toList_append, String.toList_append]
  rfl

/-- No character of a plain host ends an authority or is trimmed away. -/
theorem Plain.mem_render {host : Host} (h : host.Plain) {c : Char} (hc : c ∈ host.render.toList) :
    isBareChar c = true := by
  cases h with
  | name hne hs =>
    rw [render, String.toList_ofList] at hc
    exact isBareChar_of_isNameChar (hs c hc)
  | ipv6 a =>
    rw [toList_render_ipv6, List.mem_cons, List.mem_append, List.mem_singleton] at hc
    rcases hc with rfl | hc | rfl
    · decide
    · rcases Ipv6.mem_renderHex hc with rfl | hhex
      · decide
      · exact isBareChar_of_isHex hhex
    · decide

/-- The text of a plain host is read as that host. -/
theorem Plain.parsePlain_render {host : Host} (h : host.Plain) :
    parsePlain host.render.toList = .ok (some host) := by
  cases h with
  | @name s hne hs =>
    have hforbidden : s.any isForbidden = false := by
      rw [List.any_eq_false]
      intro c hc hforbidden
      have hname := hs c hc
      rw [isNameChar, hforbidden, Bool.not_true, Bool.and_false] at hname
      exact Bool.false_ne_true hname
    rw [render, String.toList_ofList, parsePlain]
    · rw [hforbidden, percentEncode_of_isNameChar hs]
      rfl
    · exact hne
    · rintro rest rfl
      exact absurd (hs '[' List.mem_cons_self) (by decide)
  | ipv6 a =>
    -- the closing bracket is looked for from the end
    have hreverse : (a.renderHex.toList ++ [']']).reverse = ']' :: a.renderHex.toList.reverse := by
      simp
    rw [toList_render_ipv6, parsePlain, parseBracketed, hreverse]
    simp only [List.reverse_reverse, Ipv6.parse?_renderHex]
    rfl

end MeshNode.Host
