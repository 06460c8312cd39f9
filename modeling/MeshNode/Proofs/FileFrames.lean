import MeshNode.Proofs.Files

/-!
# What making directories leaves alone

Directories on the way to a path are made one after the other, and what was made before a
failure stays. A path may lead back by two dots, so a directory that is made can lie anywhere,
and can open the way to something that stood there all along.

* **widening** — `Widened`: a tree with more directories on the way of some names, and nothing
  else new; `widened_makeDirectories` and `widened_makeParents`;
* **writing** — `leadsTo_put`: a path leads to the place where a file was written for it;
* **rooted trees** — `Rooted`: everything stands in a directory; whatever is put where names lead
  keeps a tree so (`Rooted.put_of_follow`);
* **paths without two dots** — `pathExists_of_leadsTo`: in a rooted tree such a path leads to
  nothing old that it did not lead to before when directories are made.
-/

namespace MeshNode

namespace FileTree

variable {t t' t₁ : FileTree} {place q here : List String} {e : FileEntry}
  {names front : List String} {text : String} {p : FilePath}

/-! ## Widening -/

/-- Names lead where they led, in a tree that has all directories of another. -/
theorem follow_mono (hkept : ∀ q, t.entry? q = some .directory → t'.entry? q = some .directory)
    (h : t.follow here names = .ok place) : t'.follow here names = .ok place := by
  fun_induction t.follow here names with
  | case1 here => exact h
  | case2 here name => exact h
  | case3 here name rest hrest ih =>
    obtain ⟨next, hnext, h⟩ := bind_eq_ok.mp h
    obtain ⟨⟨⟩, hcheck, h⟩ := bind_eq_ok.mp h
    have hthere : t'.checkDirectory next = .ok () :=
      checkDirectory_eq_ok.mpr (hkept next (checkDirectory_eq_ok.mp hcheck))
    rw [follow, hnext]
    · show (t'.checkDirectory next >>= fun _ => _) = _
      rw [hthere]
      exact ih next h
    · exact hrest

/-- A place to which some of the names lead, from the first on. -/
def IsOnWay (t : FileTree) (names place : List String) : Prop :=
  ∃ front, front <+: names ∧ t.follow [] front = .ok place

/-- A tree comes from another by making directories on the way of some names. -/
structure Widened (t t' : FileTree) (names : List String) : Prop where
  kept : ∀ place e, t.entry? place = some e → t'.entry? place = some e
  made : ∀ place e, t.entry? place = none → t'.entry? place = some e →
    e = .directory ∧ t'.IsOnWay names place

theorem Widened.refl (t : FileTree) (names : List String) : t.Widened t names where
  kept _ _ h := h
  made _ _ hnone h := by
    rw [hnone] at h
    cases h

theorem Widened.follow (h : t.Widened t' names) (hfollow : t.follow here front = .ok place) :
    t'.follow here front = .ok place :=
  follow_mono (fun q hq => h.kept q _ hq) hfollow

/-- First the directories on the way of the first names, then those on the way of all. -/
theorem Widened.trans (hfront : front <+: names) (h₁ : t.Widened t₁ front)
    (h₂ : t₁.Widened t' names) : t.Widened t' names where
  kept place e h := h₂.kept place e (h₁.kept place e h)
  made place e hnone h := by
    cases hfirst : t₁.entry? place with
    | none => exact h₂.made place e hfirst h
    | some first =>
      obtain ⟨rfl, last, hlast, hfollow⟩ := h₁.made place first hnone hfirst
      rw [h₂.kept place _ hfirst] at h
      cases h
      exact ⟨rfl, last, hlast.trans hfront, h₂.follow hfollow⟩

theorem widened_makeDirectory (h : t.makeDirectory p = .ok t') : t.Widened t' p.names := by
  obtain ⟨place, hfollow, hnone, rfl⟩ := makeDirectory_eq_ok.mp h
  have hfree : t.entry? place ≠ some .directory := by
    rw [hnone]
    nofun
  have hput := entry?_put (t := t) (ne_nil_of_not_directory hfree) .directory
  constructor
  · intro q e hq
    rw [hput, if_neg, hq]
    rintro rfl
    rw [hnone] at hq
    cases hq
  · intro q e hq hnew
    rw [hput] at hnew
    split at hnew
    · next heq =>
      cases hnew
      subst heq
      exact ⟨rfl, p.names, List.prefix_rfl, follow_put hfree .directory hfollow⟩
    · rw [hq] at hnew
      cases hnew

/-- Making directories makes directories on the way and does nothing else, wherever it ends. -/
theorem widened_makeDirectories (t : FileTree) (length : Nat) (p : FilePath) :
    t.Widened (t.makeDirectories length p).1 p.names := by
  induction length generalizing p with
  | zero => exact .refl t p.names
  | succ length ih =>
    have hparents := ih ⟨p.names.dropLast, false⟩
    rw [makeDirectories]
    split
    · next made hmade => exact widened_makeDirectory hmade
    · cases hresult : t.makeDirectories length ⟨p.names.dropLast, false⟩ with
      | mk t₁ result =>
        rw [hresult] at hparents
        have hway : t.Widened t₁ p.names :=
          hparents.trans (List.dropLast_prefix p.names) (.refl t₁ p.names)
        cases result with
        | error cause => exact hway
        | ok done =>
          dsimp only
          split
          · next made hmade =>
            exact hparents.trans (List.dropLast_prefix p.names) (widened_makeDirectory hmade)
          · exact hway
    · exact .refl t p.names

/-- A place to which the text of a path leads, one that ends with a slash to a directory only. -/
def LeadsTo (t : FileTree) (text : String) (place : List String) : Prop :=
  ∃ p, FilePath.parse? text = some p ∧ t.locate p = .ok place

/-- The names on the way to a path: all but the last. -/
def wayTo (text : String) : List String :=
  ((FilePath.parse? text).map fun p => p.names.dropLast).getD []

theorem widened_makeParents (t : FileTree) (text : String) :
    t.Widened (t.makeParents text).1 (wayTo text) := by
  rw [makeParents, wayTo]
  cases FilePath.parse? text with
  | none => exact .refl t []
  | some p =>
    rw [Option.bind_some, Option.map_some, Option.getD_some]
    cases hparent : p.parent? with
    | none => exact .refl t p.names.dropLast
    | some parent =>
      unfold FilePath.parent? at hparent
      split at hparent
      · cases hparent
      · cases hparent
        exact t.widened_makeDirectories _ ⟨p.names.dropLast, false⟩

/-! ## Writing -/

/-- Something else at the place to which a path leads does not lead it astray. -/
theorem leadsTo_put {content : List UInt8} (h : t.LeadsTo text place)
    (hdirectory : t.entry? place ≠ some .directory)
    (hslash : ∀ p, FilePath.parse? text = some p → p.trailing = true → t.entry? place ≠ none) :
    (t.put place (.file content)).LeadsTo text place := by
  obtain ⟨p, hp, hlocate⟩ := h
  obtain ⟨hfollow, hfile⟩ := locate_eq_ok.mp hlocate
  refine ⟨p, hp, locate_eq_ok.mpr ⟨follow_put hdirectory _ hfollow, fun htrailing => ?_⟩⟩
  -- a path that ends with a slash leads to a directory, and none stands there
  cases hentry : t.entry? place with
  | none => exact absurd hentry (hslash p hp htrailing)
  | some e =>
    cases e with
    | directory => exact absurd hentry hdirectory
    | file old => exact absurd hentry (hfile htrailing old)

/-! ## Rooted trees -/

/-- Everything that stands somewhere stands in a directory. -/
def Rooted (t : FileTree) : Prop :=
  ∀ place e, t.entry? place = some e → t.entry? place.dropLast = some .directory

/-- Every place before one where something stands is a directory. -/
theorem Rooted.of_prefix (h : t.Rooted) (hentry : t.entry? place = some e) (hq : q <+: place)
    (hne : q ≠ place) : t.entry? q = some .directory := by
  induction place using List.reverseRecOn generalizing e with
  | nil => exact absurd (List.prefix_nil.mp hq) hne
  | append_singleton place last ih =>
    have hplace := h _ _ hentry
    rw [List.dropLast_concat] at hplace
    have hbefore := (List.prefix_concat_iff.mp hq).resolve_left hne
    by_cases heq : q = place
    · rw [heq]
      exact hplace
    · exact ih hplace hbefore heq

/-- Names lead into a directory. -/
theorem Rooted.of_follow (h : t.Rooted) (hhere : t.entry? here = some .directory)
    (hfollow : t.follow here names = .ok place) : t.entry? place.dropLast = some .directory := by
  have hstep : ∀ {here name next}, t.entry? here = some .directory →
      stepTo here name = .ok next → t.entry? next.dropLast = some .directory := by
    intro here name next hhere hnext
    unfold stepTo at hnext
    split at hnext
    · cases hnext
      exact h _ _ (h _ _ hhere)
    · split at hnext
      · cases hnext
      · cases hnext
        rw [List.dropLast_concat]
        exact hhere
  fun_induction t.follow here names with
  | case1 here =>
    cases hfollow
    exact h _ _ hhere
  | case2 here name => exact hstep hhere hfollow
  | case3 here name rest hrest ih =>
    obtain ⟨next, -, hfollow⟩ := bind_eq_ok.mp hfollow
    obtain ⟨⟨⟩, hcheck, hfollow⟩ := bind_eq_ok.mp hfollow
    exact ih next (checkDirectory_eq_ok.mp hcheck) hfollow

/-- What is put where names lead, but not in the place of a directory, stands in a directory. -/
theorem Rooted.put_of_follow (h : t.Rooted) (hfree : t.entry? place ≠ some .directory)
    (hfollow : t.follow [] names = .ok place) (e : FileEntry) : (t.put place e).Rooted := by
  have hput := entry?_put (t := t) (ne_nil_of_not_directory hfree) e
  have hinto : t.entry? place.dropLast = some .directory := h.of_follow rfl hfollow
  have hkept : ∀ q, t.entry? q = some .directory →
      FileTree.entry? (t.put place e) q = some .directory := by
    intro q hq
    rw [hput, if_neg, hq]
    rintro rfl
    exact hfree hq
  intro q old hold
  rw [hput] at hold
  split at hold
  · next heq =>
    rw [heq]
    exact hkept _ hinto
  · exact hkept _ (h _ _ hold)

theorem Rooted.makeDirectory (h : t.Rooted) (hmade : t.makeDirectory p = .ok t') : t'.Rooted := by
  obtain ⟨place, hfollow, hnone, rfl⟩ := makeDirectory_eq_ok.mp hmade
  refine h.put_of_follow ?_ hfollow .directory
  rw [hnone]
  nofun

theorem Rooted.makeDirectories (h : t.Rooted) (length : Nat) (p : FilePath) :
    (t.makeDirectories length p).1.Rooted := by
  induction length generalizing p with
  | zero => exact h
  | succ length ih =>
    have hparents := ih ⟨p.names.dropLast, false⟩
    rw [FileTree.makeDirectories]
    split
    · next made hmade => exact h.makeDirectory hmade
    · cases hresult : t.makeDirectories length ⟨p.names.dropLast, false⟩ with
      | mk t₁ result =>
        rw [hresult] at hparents
        cases result with
        | error cause => exact hparents
        | ok done =>
          dsimp only
          split
          · next made hmade => exact hparents.makeDirectory hmade
          · exact hparents
    · exact h

theorem Rooted.makeParents (h : t.Rooted) (text : String) : (t.makeParents text).1.Rooted := by
  rw [FileTree.makeParents]
  split
  · next parent _ => exact h.makeDirectories parent.names.length parent
  · exact h

/-! ## Paths without two dots -/

/-- A path in which no name leads back. -/
def LeadsOn (text : String) : Prop := ∀ p, FilePath.parse? text = some p → ".." ∉ p.names

/-- Names of which none leads back lead to their own place. -/
theorem plain_of_follow (hdots : ".." ∉ names) (h : t.follow here names = .ok place) :
    ArePlain names ∧ place = here ++ names := by
  have hstep : ∀ {here name next}, name ≠ ".." → stepTo here name = .ok next →
      name.utf8ByteSize ≤ maxName ∧ next = here ++ [name] := by
    intro here name next hname hnext
    rw [stepTo, if_neg hname] at hnext
    split at hnext
    · cases hnext
    · next hshort =>
      cases hnext
      exact ⟨Nat.le_of_not_lt hshort, rfl⟩
  fun_induction t.follow here names with
  | case1 here =>
    cases h
    exact ⟨fun _ hother => absurd hother List.not_mem_nil, (List.append_nil _).symm⟩
  | case2 here name =>
    have hname : name ≠ ".." := fun heq => hdots (by simp [heq])
    obtain ⟨hshort, rfl⟩ := hstep hname h
    refine ⟨fun other hother => ?_, rfl⟩
    rw [List.mem_singleton.mp hother]
    exact ⟨hname, hshort⟩
  | case3 here name rest hrest ih =>
    have hname : name ≠ ".." := fun heq => hdots (by simp [heq])
    obtain ⟨next, hnext, h⟩ := bind_eq_ok.mp h
    obtain ⟨⟨⟩, -, h⟩ := bind_eq_ok.mp h
    obtain ⟨hshort, rfl⟩ := hstep hname hnext
    obtain ⟨hplain, rfl⟩ := ih _ (fun hmem => hdots (List.mem_cons_of_mem name hmem)) h
    refine ⟨fun other hother => ?_, List.append_cons here name rest |>.symm⟩
    rcases List.mem_cons.mp hother with rfl | hother
    · exact ⟨hname, hshort⟩
    · exact hplain other hother

/-- In a rooted tree a path that leads on to something, once directories have been made, led to it
before if it was there. -/
theorem pathExists_of_leadsTo (hrooted : t.Rooted) (hleads : LeadsOn text)
    (hkept : ∀ q e, t.entry? q = some e → t'.entry? q = some e) (h : t'.LeadsTo text place)
    (hentry : t.entry? place = some e) : t.pathExists text = true := by
  obtain ⟨p, hp, hlocate⟩ := h
  obtain ⟨hfollow, hfile⟩ := locate_eq_ok.mp hlocate
  obtain ⟨hplain, rfl⟩ := plain_of_follow (hleads p hp) hfollow
  have hthere : t.follow [] p.names = .ok p.names :=
    follow_of_directories hplain fun q hq hne => hrooted.of_prefix hentry hq hne
  refine pathExists_eq_true.mpr ⟨p, e, hp, find_eq_ok.mpr ⟨p.names, ?_, hentry⟩⟩
  refine locate_eq_ok.mpr ⟨hthere, fun htrailing content hcontent => ?_⟩
  exact hfile htrailing content (hkept _ _ hcontent)

end FileTree

end MeshNode
