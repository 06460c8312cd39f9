import MeshNode.Proofs.Text.Hex
import MeshNode.Settings.Basic

/-!
# The key of a node

A node that takes a wrong key for its own moves to another address and another subnet, so a key is
read from the texts that spell it and from no others.

* **texts of a key** — `SameButCase`, `hexText`; `publicKey_eq_some_iff`, `publicKey_eq_none_iff`,
  `exists_publicKey_eq_error_iff`: what each text gives; `publicKey_eq_some_iff_casing`: the casings
  of one text give one key;
* **validation** — `validate_of_publicKey_error`: a text that gives no key is refused before anything
  else; `validate_of_publicKey_ok`: one that gives a key makes no difference;
* **all of it** — `key_read_in_any_case`.
-/

namespace MeshNode.Settings

open MeshNode.Text

/-! ## Texts of a key -/

/-- Whether two texts differ in the case of their letters at most. -/
def SameButCase (a b : String) : Prop := a.toList.map Char.toLower = b.toList.map Char.toLower

instance (a b : String) : Decidable (SameButCase a b) := inferInstanceAs (Decidable (_ = _))

/-- A key in hexadecimal, in small letters. -/
def hexText (key : NodeKey) : String := String.ofList (encodeHex key.toList)

variable {s t : Settings} {key : NodeKey}

theorem publicKey_eq_none_iff : s.publicKey = .ok none ↔ s.node.publicKey = "" := by
  rw [publicKey]
  split
  · next hempty => exact iff_of_true rfl hempty
  · next hne =>
    refine iff_of_false (fun h => ?_) hne
    split at h
    · cases h
    · split at h <;> cases h

/-- A key is read from digits of the halves of its octets. -/
theorem publicKey_eq_some_iff : s.publicKey = .ok (some key) ↔
    s.node.publicKey.toList.map hexDigit? = (halves key.toList).map some := by
  rw [← decodeHex_utf8_eq_ok_iff, publicKey]
  split
  · next hempty =>
    refine iff_of_false nofun fun h => ?_
    rw [hempty, decodeHex_utf8_eq_ok_iff] at h
    have hlength := congrArg List.length h
    rw [List.length_map, List.length_map, length_halves, key.length_toList] at hlength
    cases hlength
  · cases hread : decodeHex (utf8 s.node.publicKey) with
    | error cause => exact iff_of_false nofun nofun
    | ok bytes =>
      rw [Except.ok.injEq, ← Octets.ofList?_eq_some_iff]
      dsimp only
      cases Octets.ofList? bytes with
      | none => exact iff_of_false nofun nofun
      | some found => rw [Except.ok.injEq]

/-- Whatever is neither empty nor the text of a key is refused. -/
theorem exists_publicKey_eq_error_iff : (∃ e, s.publicKey = .error e) ↔
    s.node.publicKey ≠ "" ∧ ∀ key, s.publicKey ≠ .ok (some key) := by
  rw [ne_eq, ← publicKey_eq_none_iff]
  rcases s.publicKey with e | _ | key
  · exact iff_of_true ⟨e, rfl⟩ ⟨nofun, nofun⟩
  · exact iff_of_false nofun fun h => h.1 rfl
  · exact iff_of_false nofun fun h => h.2 key rfl

/-- A key is read from its hexadecimal text in any case. -/
theorem publicKey_eq_some_iff_casing :
    s.publicKey = .ok (some key) ↔ SameButCase s.node.publicKey (hexText key) := by
  rw [publicKey_eq_some_iff, ← map_toLower_eq_encodeHex_iff, SameButCase, hexText,
    String.toList_ofList, map_toLower_encodeHex]

/-! ## Validation -/

theorem validate_of_publicKey_error {e : InvalidSettings} (h : s.publicKey = .error e) :
    s.validate = .error e := by
  rw [validate, h]

/-- With a key the rest decides as without one. -/
theorem validate_of_publicKey_ok {key? : Option NodeKey} (h : s.publicKey = .ok key?) :
    s.validate = { s with node.publicKey := "" }.validate := by
  have hnone : { s with node.publicKey := "" }.publicKey = .ok none := publicKey_eq_none_iff.mpr rfl
  rw [validate, validate, h, hnone]

/-! ## All of it -/

/-- **Keys are read in any case.** The empty text gives no key; a key is given by the texts of 64
hexadecimal digits, small or capital, whose pairs spell its octets, and these are the casings of its
hexadecimal text; every other text is refused. So texts that differ in case only, and no others, give
the same key. Settings are refused for a refused text whatever else they say, and an accepted one
makes no difference to what else is checked. -/
theorem key_read_in_any_case (s : Settings) :
    (s.publicKey = .ok none ↔ s.node.publicKey = "") ∧
    (∀ key, s.publicKey = .ok (some key) ↔ SpellsOctets s.node.publicKey.toList key) ∧
    ((∃ e, s.publicKey = .error e) ↔
      s.node.publicKey ≠ "" ∧ ∀ key : NodeKey, ¬ SpellsOctets s.node.publicKey.toList key) ∧
    (∀ key, s.publicKey = .ok (some key) ↔ SameButCase s.node.publicKey (hexText key)) ∧
    (∀ t : Settings, (∃ key, s.publicKey = .ok (some key) ∧ t.publicKey = .ok (some key)) ↔
      (∃ key, s.publicKey = .ok (some key)) ∧ SameButCase s.node.publicKey t.node.publicKey) ∧
    (∀ e, s.publicKey = .error e → s.validate = .error e) ∧
    ∀ key?, s.publicKey = .ok key? → s.validate = { s with node.publicKey := "" }.validate := by
  have hspells : ∀ key, s.publicKey = .ok (some key) ↔ SpellsOctets s.node.publicKey.toList key :=
    fun _ => publicKey_eq_some_iff.trans spellsOctets_iff.symm
  refine ⟨publicKey_eq_none_iff, hspells, ?_, fun _ => publicKey_eq_some_iff_casing, fun t => ?_,
    fun _ => validate_of_publicKey_error, fun _ => validate_of_publicKey_ok⟩
  · rw [exists_publicKey_eq_error_iff]
    simp only [ne_eq, hspells]
  · simp only [publicKey_eq_some_iff_casing]
    constructor
    · rintro ⟨key, hs, ht⟩
      exact ⟨⟨key, hs⟩, hs.trans ht.symm⟩
    · rintro ⟨⟨key, hs⟩, hsame⟩
      exact ⟨key, hs, hsame.symm.trans hs⟩

/-- A key of two octets, sixteen times each. -/
def sampleKey : NodeKey := .padded 32 (List.replicate 16 0xab ++ List.replicate 16 0x0f)

/-- Settings with nothing but the text of a key. -/
def keyed (text : String) : Settings := { node := { publicKey := text } }

/-- The key in mixed case. -/
def mixedText : String := "aBAbabABaBAbabABaBAbabABaBAbabAB0f0F0f0F0f0F0f0F0f0F0f0F0f0F0f0F"

/-- A text of 64 octets, of which the last two are one character. -/
def accentedText : String := "aBAbabABaBAbabABaBAbabABaBAbabAB0f0F0f0F0f0F0f0F0f0F0f0F0f0F0f\u00e9"

theorem mixed_case_key_read :
    (keyed mixedText).publicKey = .ok (some sampleKey) ∧ (keyed mixedText).validate = .ok () ∧
      (keyed accentedText).publicKey = .error (.publicKeyDigits (.badDigit 0xc3 62)) ∧
      (keyed accentedText).validate = .error (.publicKeyDigits (.badDigit 0xc3 62)) := by
  have hread : (keyed mixedText).publicKey = .ok (some sampleKey) :=
    ((key_read_in_any_case _).2.2.2.1 sampleKey).mpr (by decide +kernel)
  have hrefused : (keyed accentedText).publicKey =
      .error (.publicKeyDigits (.badDigit 0xc3 62)) := by
    rw [publicKey, utf8_eq_flatMap]
    decide +kernel
  refine ⟨hread, ?_, hrefused, (key_read_in_any_case _).2.2.2.2.2.1 _ hrefused⟩
  rw [(key_read_in_any_case _).2.2.2.2.2.2 _ hread]
  decide +kernel

end MeshNode.Settings
