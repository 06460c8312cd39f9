import MeshNode.FileTree
import MeshNode.Proofs.Records
import MeshNode.Proofs.Text.Utf8
import Mathlib.Data.List.Induction

/-!
# Laws of file trees

* **entries** — `entry?_put`: what stands where after something was put somewhere;
* **paths** — `follow_put`: a path leads to the same place as before, as long as nothing is
  put in the place of a directory;
* **files** — `find_write` and `readText_of_find`: a text that was written to a file is read
  from it;
* **directories** — `makeParents_of_pathExists` and `makeParents_error`: what comes of making
  the directories on the way to a path that leads somewhere, and of not being able to make
  them;
* **fresh files** — `isWritable_of_plain`: a path of plain names can be written to unless a
  file stands on its way or a directory at its end.
-/

namespace MeshNode

open MeshNode.Text

namespace FileTree

variable {t t' : FileTree} {place q here : List String} {e : FileEntry} {names : List String}
  {text : String} {p : FilePath}

/-! ## Entries -/

theorem lookup_put (place : List String) (e : FileEntry) (q : List String) :
    (t.put place e).entries.lookup q = if q = place then some e else t.entries.lookup q := by
  have hgo : ∀ entries, (put.go place e entries).lookup q =
      if q = place then some e else entries.lookup q := by
    intro entries
    induction entries with
    | nil =>
      rw [put.go]
      by_cases hq : q = place
      · rw [if_pos hq, hq, List.lookup_cons_self]
      · rw [if_neg hq, lookup_cons_of_ne hq]
    | cons entry entries ih =>
      obtain ⟨k, old⟩ := entry
      rw [put.go]
      by_cases hk : k = place
      · subst hk
        rw [if_pos rfl]
        by_cases hq : q = k
        · rw [if_pos hq, hq, List.lookup_cons_self]
        · rw [if_neg hq, lookup_cons_of_ne hq, lookup_cons_of_ne hq]
      · rw [if_neg hk]
        by_cases hq : q = k
        · rw [hq, if_neg hk, List.lookup_cons_self, List.lookup_cons_self]
        · rw [lookup_cons_of_ne hq, lookup_cons_of_ne hq, ih]
  exact hgo t.entries

/-- What is put at a place stands there, unless it is the root. -/
theorem entry?_put (hplace : place ≠ []) (e : FileEntry) (q : List String) :
    entry? (t.put place e) q = if q = place then some e else t.entry? q := by
  unfold entry?
  rw [lookup_put]
  cases q with
  | nil => exact (if_neg (Ne.symm hplace)).symm
  | cons name q => rfl

/-- The root is a directory. -/
theorem ne_nil_of_not_directory (h : t.entry? place ≠ some .directory) : place ≠ [] := by
  rintro rfl
  exact h rfl

/-! ## Paths -/

theorem checkDirectory_eq_ok : t.checkDirectory q = .ok () ↔ t.entry? q = some .directory := by
  unfold checkDirectory
  split
  · next h => exact iff_of_true rfl h
  · next h => exact iff_of_false nofun (by rw [h]; nofun)
  · next h => exact iff_of_false nofun (by rw [h]; nofun)

/-- A path leads on to where it led, if nothing takes the place of a directory. -/
theorem follow_put (hplace : t.entry? place ≠ some .directory) (e : FileEntry)
    (h : t.follow here names = .ok q) : (t.put place e).follow here names = .ok q := by
  fun_induction t.follow here names with
  | case1 here => exact h
  | case2 here name => exact h
  | case3 here name rest hrest ih =>
    obtain ⟨next, hnext, h⟩ := bind_eq_ok.mp h
    obtain ⟨⟨⟩, hcheck, h⟩ := bind_eq_ok.mp h
    have hdirectory := checkDirectory_eq_ok.mp hcheck
    have hne : next ≠ place := by
      rintro rfl
      exact hplace hdirectory
    have hkept : (t.put place e).checkDirectory next = .ok () := by
      rw [checkDirectory_eq_ok, entry?_put (ne_nil_of_not_directory hplace), if_neg hne]
      exact hdirectory
    rw [follow, hnext]
    · show ((t.put place e).checkDirectory next >>= fun _ => _) = _
      rw [hkept]
      exact ih next h
    · exact hrest

/-- The last step of a path leads on from a directory. -/
theorem follow_concat (hne : names ≠ []) (here : List String) (last : String) :
    t.follow here (names ++ [last]) =
      (t.follow here names >>= fun q => t.checkDirectory q >>= fun _ => stepTo q last) := by
  induction names generalizing here with
  | nil => exact absurd rfl hne
  | cons name names ih =>
    cases names with
    | nil => rfl
    | cons second names =>
      have hlong : t.follow here (name :: second :: names) =
          (stepTo here name >>= fun next => t.checkDirectory next >>= fun _ =>
            t.follow next (second :: names)) := rfl
      have hlonger : t.follow here (name :: second :: names ++ [last]) =
          (stepTo here name >>= fun next => t.checkDirectory next >>= fun _ =>
            t.follow next (second :: names ++ [last])) := rfl
      rw [hlong, hlonger]
      simp only [ih (by simp), bind_assoc]

/-- A path leads to the place of its names; one that ends with a slash does not lead to a
file. -/
theorem locate_eq_ok : t.locate p = .ok place ↔
    t.follow [] p.names = .ok place ∧
      (p.trailing = true → ∀ content, t.entry? place ≠ some (.file content)) := by
  rw [locate, bind_eq_ok]
  constructor
  · rintro ⟨q, hfollow, h⟩
    split at h
    · cases h
    · next hfile =>
      cases h
      exact ⟨hfollow, fun htrailing content hcontent => hfile content htrailing hcontent⟩
  · rintro ⟨hfollow, hfile⟩
    refine ⟨place, hfollow, ?_⟩
    split
    · next htrailing hcontent => exact absurd hcontent (hfile htrailing _)
    · rfl

theorem find_eq_ok :
    t.find p = .ok e ↔ ∃ place, t.locate p = .ok place ∧ t.entry? place = some e := by
  rw [find, bind_eq_ok]
  refine exists_congr fun place => and_congr_right fun _ => ?_
  cases t.entry? place with
  | none => exact iff_of_false nofun nofun
  | some old =>
    exact ⟨fun h => congrArg some (Except.ok.inj h), fun h => congrArg _ (Option.some.inj h)⟩

theorem pathExists_eq_true :
    t.pathExists text = true ↔ ∃ p e, FilePath.parse? text = some p ∧ t.find p = .ok e := by
  unfold pathExists
  cases hp : FilePath.parse? text with
  | none => exact iff_of_false Bool.false_ne_true nofun
  | some p =>
    cases hfind : t.find p with
    | error cause =>
      refine iff_of_false (by simp [hfind, Except.isOk, Except.toBool]) ?_
      rintro ⟨_, e, ⟨⟩, h⟩
      rw [hfind] at h
      cases h
    | ok e => exact iff_of_true (by simp [hfind, Except.isOk, Except.toBool]) ⟨p, e, rfl, hfind⟩

/-! ## Files -/

/-- A file is written where a path leads, unless a directory stands there. -/
theorem write_eq_ok {content : List UInt8} : t.write text content = .ok t' ↔
    ∃ p place, FilePath.parse? text = some p ∧ t.locate p = .ok place ∧
      t.entry? place ≠ some .directory ∧ (p.trailing = true → t.entry? place ≠ none) ∧
      t' = t.put place (.file content) := by
  unfold write
  cases hp : FilePath.parse? text with
  | none =>
    refine iff_of_false nofun ?_
    rintro ⟨p, place, ⟨⟩, -⟩
  | some p =>
    simp only [bind_eq_ok, Option.some.injEq, exists_and_left, exists_eq_left']
    refine exists_congr fun place => and_congr_right fun _ => ?_
    split
    · next h => exact iff_of_false nofun fun hnot => hnot.1 h
    · next h htrailing => exact iff_of_false nofun fun hnot => hnot.2.1 htrailing h
    · next hdirectory hnone =>
      constructor
      · rintro ⟨⟩
        exact ⟨hdirectory, fun htrailing h => hnone h htrailing, rfl⟩
      · rintro ⟨-, -, rfl⟩
        rfl

/-- A file is found where it was written. -/
theorem find_write {content : List UInt8} (hp : FilePath.parse? text = some p)
    (h : t.write text content = .ok t') : t'.find p = .ok (.file content) := by
  obtain ⟨_, place, heq, hlocate, hdirectory, htrailing, rfl⟩ := write_eq_ok.mp h
  cases hp.symm.trans heq
  obtain ⟨hfollow, hfile⟩ := locate_eq_ok.mp hlocate
  have hentry : entry? (t.put place (.file content)) place = some (.file content) := by
    rw [entry?_put (ne_nil_of_not_directory hdirectory), if_pos rfl]
  refine find_eq_ok.mpr ⟨place, locate_eq_ok.mpr ⟨follow_put hdirectory _ hfollow, ?_⟩, hentry⟩
  -- a path that ends with a slash leads to a directory or, as none was made, to nothing
  intro hslash
  cases hold : t.entry? place with
  | none => exact absurd hold (htrailing hslash)
  | some old =>
    cases old with
    | directory => exact absurd hold hdirectory
    | file content => exact absurd hold (hfile hslash content)

theorem readText_of_find {s : String} (hp : FilePath.parse? text = some p)
    (hfind : t.find p = .ok (.file (utf8 s))) : t.readText text = .ok s := by
  rw [readText, hp]
  dsimp only
  rw [hfind, ok_bind]
  dsimp only
  rw [ofUtf8?_utf8]
  rfl

theorem pathExists_of_readText {s : String} (h : t.readText text = .ok s) :
    t.pathExists text = true := by
  unfold readText at h
  cases hp : FilePath.parse? text with
  | none =>
    rw [hp] at h
    cases h
  | some p =>
    rw [hp] at h
    obtain ⟨e, hfind, -⟩ := bind_eq_ok.mp h
    exact pathExists_eq_true.mpr ⟨p, e, hp, hfind⟩

/-! ## Directories -/

theorem makeDirectory_eq_ok : t.makeDirectory p = .ok t' ↔
    ∃ place, t.follow [] p.names = .ok place ∧ t.entry? place = none ∧
      t' = t.put place .directory := by
  rw [makeDirectory, bind_eq_ok]
  refine exists_congr fun place => and_congr_right fun _ => ?_
  cases t.entry? place with
  | none => exact ⟨fun h => ⟨rfl, (Except.ok.inj h).symm⟩, fun h => congrArg _ h.2.symm⟩
  | some old => exact iff_of_false nofun nofun

theorem makeDirectory_of_some (hfollow : t.follow [] p.names = .ok place)
    (hentry : t.entry? place = some e) : t.makeDirectory p = .error .alreadyExists := by
  rw [makeDirectory, hfollow, ok_bind, hentry]

theorem isDirectory_iff_find : t.isDirectory p = true ↔ t.find p = .ok .directory := by
  unfold isDirectory
  split
  · next h => exact iff_of_true rfl h
  · next h => exact iff_of_false Bool.false_ne_true h

theorem isDirectory_eq_true : t.isDirectory p = true ↔
    ∃ place, t.follow [] p.names = .ok place ∧ t.entry? place = some .directory := by
  rw [isDirectory_iff_find, find_eq_ok]
  constructor
  · rintro ⟨place, hlocate, hentry⟩
    exact ⟨place, (locate_eq_ok.mp hlocate).1, hentry⟩
  · rintro ⟨place, hfollow, hentry⟩
    refine ⟨place, locate_eq_ok.mpr ⟨hfollow, fun _ content hfile => ?_⟩, hentry⟩
    rw [hentry] at hfile
    cases hfile

/-- What a path leads to lies in a directory. -/
theorem parent_isDirectory {parent : FilePath} (hparent : p.parent? = some parent)
    (h : t.follow [] p.names = .ok q) : parent.names = [] ∨ t.isDirectory parent = true := by
  unfold FilePath.parent? at hparent
  split at hparent
  · cases hparent
  · next hnames =>
    cases hparent
    rw [List.isEmpty_iff] at hnames
    rw [← List.dropLast_concat_getLast hnames] at h
    by_cases hroot : p.names.dropLast = []
    · exact Or.inl hroot
    · right
      rw [follow_concat hroot] at h
      obtain ⟨place, hfollow, h⟩ := bind_eq_ok.mp h
      obtain ⟨⟨⟩, hcheck, -⟩ := bind_eq_ok.mp h
      exact isDirectory_eq_true.mpr ⟨place, hfollow, checkDirectory_eq_ok.mp hcheck⟩

/-- A directory that is there need not be made. -/
theorem makeDirectories_of_isDirectory (h : t.isDirectory p = true) (length : Nat) :
    t.makeDirectories length p = (t, .ok ()) := by
  cases length with
  | zero => rfl
  | succ length =>
    obtain ⟨place, hfollow, hentry⟩ := isDirectory_eq_true.mp h
    rw [makeDirectories, makeDirectory_of_some hfollow hentry]
    dsimp only
    rw [if_pos h]

theorem isDirectory_of_result {cause cause' : FileError}
    (h : (t, if t.isDirectory p then .ok () else .error cause') =
      ((t', .error cause) : FileTree × Except FileError Unit)) : t'.isDirectory p = false := by
  obtain ⟨rfl, hresult⟩ := Prod.mk.inj h
  split at hresult
  · cases hresult
  · next hnot => exact Bool.eq_false_iff.mpr hnot

/-- Where making directories fails, the one that was wanted is not there. -/
theorem makeDirectories_error {length : Nat} (hlength : p.names.length = length)
    {cause : FileError} (h : t.makeDirectories length p = (t', .error cause)) :
    t'.isDirectory p = false := by
  induction length generalizing p cause with
  | zero => cases h
  | succ length ih =>
    rw [makeDirectories] at h
    split at h
    · cases h
    · split at h
      · next t₁ cause₁ hparents =>
        obtain ⟨rfl, -⟩ := Prod.mk.inj h
        have hparent : p.parent? = some ⟨p.names.dropLast, false⟩ := by
          rw [FilePath.parent?, if_neg]
          rw [List.isEmpty_iff, ← List.length_eq_zero_iff]
          omega
        have hmissing := ih (by rw [List.length_dropLast]; omega) hparents
        rw [Bool.eq_false_iff]
        intro hdirectory
        obtain ⟨place, hfollow, -⟩ := isDirectory_eq_true.mp hdirectory
        rcases parent_isDirectory hparent hfollow with hroot | hthere
        · have hzero : length = 0 := by
            have := congrArg List.length hroot
            rw [List.length_dropLast, List.length_nil] at this
            omega
          subst hzero
          cases hparents
        · rw [hmissing] at hthere
          cases hthere
      · split at h
        · cases h
        · exact isDirectory_of_result h
    · exact isDirectory_of_result h

/-- What a path leads to is in a directory, which need not be made. -/
theorem makeParents_of_pathExists (h : t.pathExists text = true) :
    t.makeParents text = (t, .ok ()) := by
  obtain ⟨p, e, hp, hfind⟩ := pathExists_eq_true.mp h
  obtain ⟨place, hlocate, -⟩ := find_eq_ok.mp hfind
  rw [makeParents, hp, Option.bind_some]
  cases hparent : p.parent? with
  | none => rfl
  | some parent =>
    dsimp only
    rcases parent_isDirectory hparent (locate_eq_ok.mp hlocate).1 with hroot | hthere
    · rw [hroot]
      rfl
    · exact makeDirectories_of_isDirectory hthere _

/-- Where the directories on the way cannot be made, a path leads to nothing. -/
theorem makeParents_error {cause : FileError} (h : t.makeParents text = (t', .error cause)) :
    t'.pathExists text = false := by
  rw [Bool.eq_false_iff]
  intro hexists
  obtain ⟨p, e, hp, hfind⟩ := pathExists_eq_true.mp hexists
  obtain ⟨place, hlocate, -⟩ := find_eq_ok.mp hfind
  rw [makeParents, hp, Option.bind_some] at h
  cases hparent : p.parent? with
  | none =>
    rw [hparent] at h
    cases h
  | some parent =>
    rw [hparent] at h
    dsimp only at h
    rcases parent_isDirectory hparent (locate_eq_ok.mp hlocate).1 with hroot | hthere
    · rw [hroot] at h
      cases h
    · rw [makeDirectories_error rfl h] at hthere
      cases hthere

/-! ## What a path leads to -/

/-- A path leads to a directory. -/
def leadsToDirectory (t : FileTree) (text : String) : Bool :=
  (FilePath.parse? text).any t.isDirectory

theorem leadsToDirectory_eq_true : t.leadsToDirectory text = true ↔
    ∃ p, FilePath.parse? text = some p ∧ t.find p = .ok .directory := by
  unfold leadsToDirectory
  cases hp : FilePath.parse? text with
  | none => exact iff_of_false Bool.false_ne_true nofun
  | some p =>
    simp only [Option.any_some, Option.some.injEq, exists_eq_left', isDirectory_iff_find]

/-- What stands in the file that a path leads to. -/
def fileAt? (t : FileTree) (text : String) : Option (List UInt8) :=
  match (FilePath.parse? text).map t.find with
  | some (.ok (.file content)) => some content
  | _ => none

theorem fileAt?_eq_some {content : List UInt8} : t.fileAt? text = some content ↔
    ∃ p, FilePath.parse? text = some p ∧ t.find p = .ok (.file content) := by
  unfold fileAt?
  cases hp : FilePath.parse? text with
  | none => exact iff_of_false nofun nofun
  | some p =>
    simp only [Option.map_some, Option.some.injEq, exists_eq_left']
    split
    · next h =>
      rw [Option.some.inj h]
      simp
    · next h => exact iff_of_false nofun fun heq => h content (congrArg some heq)

/-- Where nothing can be written, a path leads to nothing or to a directory. -/
theorem write_error {content : List UInt8} {cause : FileError}
    (h : t.write text content = .error cause) :
    t.pathExists text = false ∨ t.leadsToDirectory text = true := by
  cases hexists : t.pathExists text with
  | false => exact Or.inl rfl
  | true =>
    right
    obtain ⟨p, e, hp, hfind⟩ := pathExists_eq_true.mp hexists
    obtain ⟨place, hlocate, hentry⟩ := find_eq_ok.mp hfind
    refine leadsToDirectory_eq_true.mpr ⟨p, hp, ?_⟩
    cases e with
    | directory => exact hfind
    | file old =>
      have hwritten : t.write text content = .ok (t.put place (.file content)) := by
        refine write_eq_ok.mpr ⟨p, place, hp, hlocate, ?_, fun _ => ?_, rfl⟩
        · rw [hentry]
          nofun
        · rw [hentry]
          nofun
      rw [hwritten] at h
      cases h

/-! ## Where files can be written -/

/-- The directories on the way to a path can be made, and then anything can be written there. -/
def IsWritable (t : FileTree) (text : String) : Prop :=
  ∃ t', t.makeParents text = (t', .ok ()) ∧
    ∀ content, ∃ written, t'.write text content = .ok written

/-- Names that lead on and are not too long. -/
def ArePlain (names : List String) : Prop :=
  ∀ name ∈ names, name ≠ ".." ∧ name.utf8ByteSize ≤ maxName

instance (names : List String) : Decidable (ArePlain names) :=
  inferInstanceAs (Decidable (∀ name ∈ names, _))

theorem stepTo_of_plain {name : String} (h : name ≠ ".." ∧ name.utf8ByteSize ≤ maxName)
    (here : List String) : stepTo here name = .ok (here ++ [name]) := by
  rw [stepTo, if_neg h.1, if_neg (Nat.not_lt.mpr h.2)]

/-- Plain names lead to their own place, unless a directory on the way is missing. -/
theorem follow_plain (hplain : ArePlain names)
    (hway : ∀ q, q <+: names → q ≠ names → ∀ content, t.entry? q ≠ some (.file content)) :
    (t.follow [] names = .ok names ∧
      ∀ q, q <+: names → q ≠ names → t.entry? q = some .directory) ∨
    (t.follow [] names = .error .notFound ∧
      ∃ q, q <+: names ∧ q ≠ names ∧ t.entry? q = none) := by
  induction names using List.reverseRecOn with
  | nil =>
    refine Or.inl ⟨rfl, fun q hq hne => ?_⟩
    exact absurd (List.prefix_nil.mp hq) hne
  | append_singleton names last ih =>
    have hlast := stepTo_of_plain (hplain last (by simp)) names
    have hshort : names <+: names ++ [last] := List.prefix_append names [last]
    have hne : ∀ q, q <+: names → q ≠ names ++ [last] := by
      rintro q hq rfl
      exact absurd hq.length_le (by simp)
    by_cases hroot : names = []
    · subst hroot
      refine Or.inl ⟨hlast, fun q hq hqne => ?_⟩
      rcases List.prefix_concat_iff.mp hq with heq | hq
      · exact absurd heq hqne
      · rw [List.prefix_nil.mp hq]
        rfl
    · rw [follow_concat hroot]
      rcases ih (fun name hname => hplain name (by simp [hname]))
          fun q hq _ => hway q (hq.trans hshort) (hne q hq) with
        ⟨hok, hdirectories⟩ | ⟨hmissing, q, hq, -, hnone⟩
      · rw [hok]
        cases hentry : t.entry? names with
        | none =>
          refine Or.inr ⟨?_, names, hshort, hne names List.prefix_rfl, hentry⟩
          show (t.checkDirectory names >>= fun _ => stepTo names last) = _
          rw [checkDirectory, hentry]
          rfl
        | some e =>
          cases e with
          | file content =>
            exact absurd hentry (hway names hshort (hne names List.prefix_rfl) content)
          | directory =>
            refine Or.inl ⟨?_, fun q hq hqne => ?_⟩
            · show (t.checkDirectory names >>= fun _ => stepTo names last) = _
              rw [checkDirectory_eq_ok.mpr hentry]
              exact hlast
            · rcases List.prefix_concat_iff.mp hq with heq | hq
              · exact absurd heq hqne
              · by_cases hall : q = names
                · rw [hall]
                  exact hentry
                · exact hdirectories q hq hall
      · rw [hmissing]
        exact Or.inr ⟨rfl, q, hq.trans hshort, hne q hq, hnone⟩

theorem follow_of_directories (hplain : ArePlain names)
    (hthere : ∀ q, q <+: names → q ≠ names → t.entry? q = some .directory) :
    t.follow [] names = .ok names := by
  have hway : ∀ q, q <+: names → q ≠ names → ∀ content, t.entry? q ≠ some (.file content) := by
    intro q hq hne content
    rw [hthere q hq hne]
    nofun
  rcases follow_plain hplain hway with ⟨hok, -⟩ | ⟨-, q, hq, hne, hnone⟩
  · exact hok
  · rw [hthere q hq hne] at hnone
    cases hnone

/-- At a place without a file a directory is made, unless it is there already. -/
theorem makeDirectory_plain (hne : names ≠ []) (hfollow : t.follow [] names = .ok names)
    (hfile : ∀ content, t.entry? names ≠ some (.file content)) :
    ∃ t', (∀ q, t'.entry? q = if q = names then some .directory else t.entry? q) ∧
      (t.makeDirectory ⟨names, false⟩ = .ok t' ∨
        t' = t ∧ t.makeDirectory ⟨names, false⟩ = .error .alreadyExists ∧
          t.isDirectory ⟨names, false⟩ = true) := by
  cases hentry : t.entry? names with
  | none =>
    refine ⟨t.put names .directory, fun q => entry?_put hne _ q, Or.inl ?_⟩
    exact makeDirectory_eq_ok.mpr ⟨names, hfollow, hentry, rfl⟩
  | some e =>
    cases e with
    | file content => exact absurd hentry (hfile content)
    | directory =>
      refine ⟨t, fun q => ?_, Or.inr ⟨rfl, makeDirectory_of_some hfollow hentry,
        isDirectory_eq_true.mpr ⟨names, hfollow, hentry⟩⟩⟩
      split
      · next hq =>
        rw [hq]
        exact hentry
      · rfl

/-- A directory whose place is missing is made after those on the way to it. -/
theorem makeDirectories_of_missing {last : String} {t₁ t' : FileTree} {depth : Nat}
    (hmissing : t.follow [] (names ++ [last]) = .error .notFound)
    (hparents : t.makeDirectories depth ⟨names, false⟩ = (t₁, .ok ()))
    (hlast : t₁.makeDirectory ⟨names ++ [last], false⟩ = .ok t' ∨
      t' = t₁ ∧ t₁.makeDirectory ⟨names ++ [last], false⟩ = .error .alreadyExists ∧
        t₁.isDirectory ⟨names ++ [last], false⟩ = true) :
    t.makeDirectories (depth + 1) ⟨names ++ [last], false⟩ = (t', .ok ()) := by
  have hnotFound : t.makeDirectory ⟨names ++ [last], false⟩ = .error .notFound := by
    rw [makeDirectory, hmissing]
    rfl
  rw [makeDirectories, hnotFound]
  dsimp only
  rw [List.dropLast_concat, hparents]
  dsimp only
  rcases hlast with hmade | ⟨rfl, hthere, hdirectory⟩
  · rw [hmade]
  · rw [hthere]
    dsimp only
    rw [if_pos hdirectory]

/-- The directories of plain names are made where no file stands in their way, and nothing
else changes. -/
theorem makeDirectories_plain (hplain : ArePlain names)
    (hway : ∀ q, q <+: names → ∀ content, t.entry? q ≠ some (.file content)) :
    ∃ t', t.makeDirectories names.length ⟨names, false⟩ = (t', .ok ()) ∧
      (∀ q, q <+: names → t'.entry? q = some .directory) ∧
      ∀ q, ¬ q <+: names → t'.entry? q = t.entry? q := by
  induction names using List.reverseRecOn with
  | nil =>
    refine ⟨t, rfl, fun q hq => ?_, fun q _ => rfl⟩
    rw [List.prefix_nil.mp hq]
    rfl
  | append_singleton names last ih =>
    have hshort : names <+: names ++ [last] := List.prefix_append names [last]
    have hnames : names ++ [last] ≠ [] := by simp
    have hfile := hway (names ++ [last]) List.prefix_rfl
    rcases follow_plain hplain fun q hq _ => hway q hq with ⟨hfollow, hthere⟩ | ⟨hmissing, -⟩
    · obtain ⟨t', hentry, hresult⟩ := makeDirectory_plain hnames hfollow hfile
      refine ⟨t', ?_, fun q hq => ?_, fun q hq => ?_⟩
      · rcases hresult with hmade | ⟨rfl, -, hdirectory⟩
        · rw [List.length_append, List.length_singleton, makeDirectories, hmade]
        · exact makeDirectories_of_isDirectory hdirectory _
      · rw [hentry]
        split
        · rfl
        · next hne => exact hthere q hq hne
      · rw [hentry, if_neg]
        rintro rfl
        exact hq List.prefix_rfl
    · -- the directories before the last are made first, and then nothing is missing for it
      obtain ⟨t₁, hparents, hdirectories, hkept⟩ :=
        ih (fun name hname => hplain name (by simp [hname])) fun q hq => hway q (hq.trans hshort)
      have hbefore : ∀ q, q <+: names ++ [last] → q ≠ names ++ [last] → q <+: names :=
        fun q hq hne => (List.prefix_concat_iff.mp hq).resolve_left hne
      have hlong : ¬ names ++ [last] <+: names := fun h => absurd h.length_le (by simp)
      have hfollow : t₁.follow [] (names ++ [last]) = .ok (names ++ [last]) :=
        follow_of_directories hplain fun q hq hne => hdirectories q (hbefore q hq hne)
      obtain ⟨t', hentry, hresult⟩ := makeDirectory_plain hnames hfollow fun content => by
        rw [hkept _ hlong]
        exact hfile content
      refine ⟨t', ?_, fun q hq => ?_, fun q hq => ?_⟩
      · rw [List.length_append, List.length_singleton]
        exact makeDirectories_of_missing hmissing hparents hresult
      · rw [hentry]
        split
        · rfl
        · next hne => exact hdirectories q (hbefore q hq hne)
      · rw [hentry, if_neg, hkept]
        · exact fun h => hq (h.trans hshort)
        · rintro rfl
          exact hq List.prefix_rfl

/-- A file can be written at the place of plain names where no directory stands, if no file
stands on the way. -/
theorem isWritable_of_plain (hp : FilePath.parse? text = some p) (hslash : p.trailing = false)
    (hne : p.names ≠ []) (hplain : ArePlain p.names)
    (hway : ∀ q, q <+: p.names → q ≠ p.names → ∀ content, t.entry? q ≠ some (.file content))
    (hplace : t.entry? p.names ≠ some .directory) : t.IsWritable text := by
  have hshort : p.names.dropLast <+: p.names := List.dropLast_prefix p.names
  have hbefore : ∀ q, q <+: p.names.dropLast → q ≠ p.names := by
    rintro q hq rfl
    have hlength := hq.length_le
    rw [List.length_dropLast] at hlength
    have hpos := List.length_pos_iff.mpr hne
    omega
  obtain ⟨t', hparents, hdirectories, hkept⟩ :=
    makeDirectories_plain (t := t) (fun name hname => hplain name (hshort.subset hname))
      fun q hq => hway q (hq.trans hshort) (hbefore q hq)
  have hentry : t'.entry? p.names ≠ some .directory := by
    rw [hkept p.names fun h => hbefore p.names h rfl]
    exact hplace
  have hfollow : t'.follow [] p.names = .ok p.names := by
    refine follow_of_directories hplain fun q hq hqne => hdirectories q ?_
    rw [← List.dropLast_concat_getLast hne] at hq hqne
    exact (List.prefix_concat_iff.mp hq).resolve_left hqne
  refine ⟨t', ?_, fun content => ⟨t'.put p.names (.file content), write_eq_ok.mpr
    ⟨p, p.names, hp, locate_eq_ok.mpr ⟨hfollow, ?_⟩, hentry, ?_, rfl⟩⟩⟩
  · rw [makeParents, hp, Option.bind_some, FilePath.parent?, if_neg (by simpa using hne)]
    exact hparents
  · rw [hslash]
    nofun
  · rw [hslash]
    nofun

end FileTree

end MeshNode
