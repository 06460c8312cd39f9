import MeshNode.Proofs.FileFrames
import MeshNode.Proofs.Settings.Layers

/-!
# Files while settings are read

Settings are read from a file that may be missing, and then a file with the defaults is written in
its place. All that reading does to the files is in that one write.

* **ways to read** — `Access`: the settings as such, those of some file, the default file, and
  all that the daemon does; `perform_fst` says that each does nothing to the files, or writes
  the default file;
* **one step** — `spared_perform`: what a step leaves alone and what it makes;
* **a settings file that is there** — `filesAfter_of_pathExists`: nothing is written any more;
* **failures** — `perform_error`: a step that fails leaves no file behind, unless it is the
  daemon that refuses the settings in the end;
* **all of it** — `reading_spares_files`.

There is one way to lose a file. A path may lead back by two dots behind a directory that is
missing. It leads to nothing then, but once the directory has been made on the way to writing
the defaults, it leads to what stood there all along: `Exposed`.
-/

namespace MeshNode.Settings

open MeshNode.Text MeshNode.CommandLine

variable {env : Environment} {files : FileTree} {a : Access} {s : Settings} {path : String}

/-! ## Ways to read -/

/-- A way to get at the settings. -/
inductive Access
  | load
  | loadFrom (path : String)
  | writeDefault
  | forDaemon (args : DaemonArgs)

/-- The files after an access, and whether it went well. -/
def Access.perform (env : Environment) (files : FileTree) :
    Access → FileTree × Except SettingsError Unit
  | .load => (files, (Settings.load env files).map fun _ => ())
  | .loadFrom path => (files, (Settings.loadFrom files path).map fun _ => ())
  | .writeDefault =>
    let (files, result) := Settings.writeDefault env files
    (files, result.map fun _ => ())
  | .forDaemon args =>
    let (files, result) := Settings.forDaemon env files args
    (files, match result with
      | .ok _ => .ok ()
      | .error cause => .error (.invalid cause))

/-- The files after some accesses. -/
def filesAfter (env : Environment) (files : FileTree) (as : List Access) : FileTree :=
  as.foldl (fun files a => (a.perform env files).1) files

theorem perform_fst (env : Environment) (files : FileTree) (a : Access) :
    (a.perform env files).1 = files ∨
      (a.perform env files).1 = (Settings.writeDefault env files).1 := by
  cases a with
  | load => exact Or.inl rfl
  | loadFrom path => exact Or.inl rfl
  | writeDefault => exact Or.inr rfl
  | forDaemon args => exact Or.inr rfl

/-! ## One step -/

/-- The document that holds the default settings. -/
def IsDefaultDocument (content : List UInt8) : Prop :=
  ∃ text, ({} : Settings).render? = some text ∧ content = utf8 text

/-- Settings are written once the directories on the way are made, or nothing but some of these
directories comes of it. -/
theorem writeTo_cases (s : Settings) (files : FileTree) (path : String) :
    (∃ e, writeTo s files path = ((files.makeParents path).1, .error e)) ∨
      ∃ text place, s.render? = some text ∧ (files.makeParents path).1.LeadsTo path place ∧
        FileTree.entry? (files.makeParents path).1 place ≠ some .directory ∧
        (∀ p, FilePath.parse? path = some p → p.trailing = true →
          FileTree.entry? (files.makeParents path).1 place ≠ none) ∧
        writeTo s files path =
          ((files.makeParents path).1.put place (.file (utf8 text)), .ok ()) := by
  unfold writeTo
  cases files.makeParents path with
  | mk files₁ result =>
    cases result with
    | error cause => exact Or.inl ⟨_, rfl⟩
    | ok made =>
      cases hrender : s.render? with
      | none => exact Or.inl ⟨_, rfl⟩
      | some text =>
        dsimp only
        cases hwrite : files₁.write path (utf8 text) with
        | error cause => exact Or.inl ⟨_, rfl⟩
        | ok files₂ =>
          obtain ⟨p, place, hp, hlocate, hdirectory, hslash, rfl⟩ :=
            FileTree.write_eq_ok.mp hwrite
          refine Or.inr ⟨text, place, rfl, ⟨p, hp, hlocate⟩, hdirectory, ?_, rfl⟩
          intro p' hp' htrailing
          cases hp.symm.trans hp'
          exact hslash htrailing

/-- A place where a file stands to which the path of the settings does not lead, but will once the
directories on its way are made. -/
def Exposed (env : Environment) (files : FileTree) (place : List String) : Prop :=
  files.pathExists (filePath env) = false ∧ (∃ content, files.entry? place = some (.file content)) ∧
    (files.makeParents (filePath env)).1.LeadsTo (filePath env) place

/-- What becomes of the files when the settings are read: what was there stays, directories are
only made on the way to the settings file, and the only new file is the settings file. -/
structure Spared (env : Environment) (files files' : FileTree) : Prop where
  directories : ∀ place, files.entry? place = some .directory →
    files'.entry? place = some .directory
  kept : ∀ place content, files.entry? place = some (.file content) →
    files'.entry? place = some (.file content) ∨ Exposed env files place
  made : ∀ place, files.entry? place = none → files'.entry? place = some .directory →
    files'.IsOnWay (FileTree.wayTo (filePath env)) place
  created : ∀ place content, files.entry? place = none →
    files'.entry? place = some (.file content) →
      files.pathExists (filePath env) = false ∧ files'.LeadsTo (filePath env) place ∧
        IsDefaultDocument content

theorem Spared.refl (env : Environment) (files : FileTree) : Spared env files files where
  directories _ h := h
  kept _ _ h := Or.inl h
  made _ hnone h := by
    rw [hnone] at h
    cases h
  created _ _ hnone h := by
    rw [hnone] at h
    cases h

/-- Only directories were made. -/
theorem Spared.of_widened {files' : FileTree}
    (h : files.Widened files' (FileTree.wayTo (filePath env))) : Spared env files files' where
  directories place := h.kept place _
  kept place content hfile := Or.inl (h.kept place _ hfile)
  made place hnone hnew := (h.made place _ hnone hnew).2
  created place content hnone hnew := by
    obtain ⟨hdirectory, -⟩ := h.made place _ hnone hnew
    cases hdirectory

/-- Directories were made, and then a file was written where the path leads. -/
theorem spared_put {place : List String} {content : List UInt8}
    (hmissing : files.pathExists (filePath env) = false) (hdefault : IsDefaultDocument content)
    (hleads : (files.makeParents (filePath env)).1.LeadsTo (filePath env) place)
    (hfree : FileTree.entry? (files.makeParents (filePath env)).1 place ≠ some .directory)
    (hslash : ∀ p, FilePath.parse? (filePath env) = some p → p.trailing = true →
      FileTree.entry? (files.makeParents (filePath env)).1 place ≠ none) :
    Spared env files ((files.makeParents (filePath env)).1.put place (.file content)) := by
  have hwidened := files.widened_makeParents (filePath env)
  have hput := FileTree.entry?_put (t := (files.makeParents (filePath env)).1)
    (FileTree.ne_nil_of_not_directory hfree) (.file content)
  constructor
  · intro q hq
    have hkept := hwidened.kept q _ hq
    rw [hput, if_neg, hkept]
    rintro rfl
    exact hfree hkept
  · intro q old hq
    by_cases heq : q = place
    · subst heq
      exact Or.inr ⟨hmissing, ⟨old, hq⟩, hleads⟩
    · left
      rw [hput, if_neg heq]
      exact hwidened.kept q _ hq
  · intro q hnone hnew
    rw [hput] at hnew
    split at hnew
    · cases hnew
    · obtain ⟨-, front, hfront, hfollow⟩ := hwidened.made q _ hnone hnew
      exact ⟨front, hfront, FileTree.follow_put hfree _ hfollow⟩
  · intro q new hnone hnew
    rw [hput] at hnew
    split at hnew
    · next heq =>
      cases hnew
      subst heq
      exact ⟨hmissing, FileTree.leadsTo_put hleads hfree hslash, hdefault⟩
    · obtain ⟨hdirectory, -⟩ := hwidened.made q _ hnone hnew
      cases hdirectory

theorem spared_writeDefault (env : Environment) (files : FileTree) :
    Spared env files (Settings.writeDefault env files).1 := by
  cases hexists : files.pathExists (filePath env) with
  | true =>
    rw [writeDefault_of_pathExists hexists]
    exact .refl env files
  | false =>
    rw [writeDefault_of_missing hexists]
    rcases writeTo_cases {} files (filePath env) with ⟨e, heq⟩ |
      ⟨text, place, hrender, hleads, hfree, hslash, heq⟩
    · rw [heq]
      exact .of_widened (files.widened_makeParents (filePath env))
    · rw [heq]
      exact spared_put hexists ⟨text, hrender, rfl⟩ hleads hfree hslash

theorem spared_perform (env : Environment) (files : FileTree) (a : Access) :
    Spared env files (a.perform env files).1 := by
  rcases perform_fst env files a with heq | heq
  · rw [heq]
    exact .refl env files
  · rw [heq]
    exact spared_writeDefault env files

/-! ## A settings file that is there -/

theorem perform_of_pathExists (h : files.pathExists (filePath env) = true) (a : Access) :
    (a.perform env files).1 = files := by
  rcases perform_fst env files a with heq | heq
  · exact heq
  · rw [heq, writeDefault_of_pathExists h]

theorem filesAfter_of_pathExists (h : files.pathExists (filePath env) = true)
    (as : List Access) : filesAfter env files as = files := by
  induction as with
  | nil => rfl
  | cons a as ih =>
    show filesAfter env (a.perform env files).1 as = files
    rw [perform_of_pathExists h, ih]

/-! ## Failures -/

/-- A step that fails leaves nothing but directories on the way behind, unless it is the daemon
that refuses the settings. -/
theorem perform_error {e : SettingsError} (h : (a.perform env files).2 = .error e)
    (ha : ∀ args, a ≠ .forDaemon args) :
    files.Widened (a.perform env files).1 (FileTree.wayTo (filePath env)) := by
  cases a with
  | load => exact .refl files _
  | loadFrom path => exact .refl files _
  | forDaemon args => exact absurd rfl (ha args)
  | writeDefault =>
    show files.Widened (Settings.writeDefault env files).1 _
    have hresult : (Settings.writeDefault env files).2.map (fun _ => ()) = .error e := h
    cases hexists : files.pathExists (filePath env) with
    | true =>
      rw [writeDefault_of_pathExists hexists]
      exact .refl files _
    | false =>
      rw [writeDefault_of_missing hexists] at hresult ⊢
      rcases writeTo_cases {} files (filePath env) with ⟨cause, heq⟩ |
        ⟨text, place, -, -, -, -, heq⟩
      · rw [heq]
        exact files.widened_makeParents (filePath env)
      · rw [heq] at hresult
        cases hresult

/-! ## Paths that lead on -/

theorem rooted_perform (h : files.Rooted) (env : Environment) (a : Access) :
    (a.perform env files).1.Rooted := by
  rcases perform_fst env files a with heq | heq
  · rw [heq]
    exact h
  · rw [heq]
    cases hexists : files.pathExists (filePath env) with
    | true =>
      rw [writeDefault_of_pathExists hexists]
      exact h
    | false =>
      rw [writeDefault_of_missing hexists]
      have hparents := h.makeParents (filePath env)
      rcases writeTo_cases {} files (filePath env) with ⟨e, heq⟩ |
        ⟨text, place, -, ⟨p, -, hlocate⟩, hfree, -, heq⟩
      · rw [heq]
        exact hparents
      · rw [heq]
        exact hparents.put_of_follow hfree (FileTree.locate_eq_ok.mp hlocate).1 _

theorem rooted_filesAfter (h : files.Rooted) (env : Environment) (as : List Access) :
    (filesAfter env files as).Rooted := by
  induction as generalizing files with
  | nil => exact h
  | cons a as ih => exact ih (rooted_perform h env a)

/-- Only behind two dots is a file exposed. -/
theorem not_exposed_of_leadsOn (hrooted : files.Rooted) (hleads : FileTree.LeadsOn (filePath env))
    (place : List String) : ¬ Exposed env files place := by
  rintro ⟨hmissing, ⟨content, hentry⟩, hplace⟩
  have hkept := (files.widened_makeParents (filePath env)).kept
  rw [FileTree.pathExists_of_leadsTo hrooted hleads hkept hplace hentry] at hmissing
  cases hmissing

/-! ## Reading -/

/-- Whatever was read before, reading leaves every file as it is that is not exposed, and every
directory. The only file it creates holds the defaults, where the path of the settings leads and
nothing stood before; directories are made on the way to it. A step that fails creates no file,
unless it is the daemon that refuses the settings; and once the path of the settings leads
somewhere nothing changes any more. No file is exposed as long as the path has no two dots. -/
theorem reading_spares_files (env : Environment) (files : FileTree) (before : List Access)
    (a : Access) :
    let t := filesAfter env files before
    let t' := (a.perform env t).1
    Spared env t t' ∧
      (∀ e, (a.perform env t).2 = .error e → (∀ args, a ≠ .forDaemon args) →
        ∀ place content, t'.entry? place = some (.file content) ↔
          t.entry? place = some (.file content)) ∧
      (t.pathExists (filePath env) = true → ∀ later, filesAfter env t later = t) ∧
      (files.Rooted → FileTree.LeadsOn (filePath env) → ∀ place, ¬ Exposed env t place) := by
  intro t t'
  refine ⟨spared_perform env t a, ?_, filesAfter_of_pathExists, ?_⟩
  · intro e herror ha place content
    have hwidened := perform_error herror ha
    refine ⟨fun hnew => ?_, hwidened.kept place _⟩
    cases hold : t.entry? place with
    | none =>
      obtain ⟨hdirectory, -⟩ := hwidened.made place _ hold hnew
      cases hdirectory
    | some old =>
      rw [← hwidened.kept place old hold]
      exact hnew
  · intro hrooted hleads
    exact not_exposed_of_leadsOn (rooted_filesAfter hrooted env before) hleads

theorem rooted_holding (text : String) : (holding text).Rooted := by
  have hempty : (⟨[]⟩ : FileTree).Rooted := by
    intro place e h
    cases place with
    | nil => rfl
    | cons name rest => cases h
  have hfree : FileTree.entry? ⟨[]⟩ ["settings.toml"] ≠ some .directory := by decide
  have hfollow : (⟨[]⟩ : FileTree).follow [] ["settings.toml"] = .ok ["settings.toml"] := rfl
  exact hempty.put_of_follow hfree hfollow _

theorem leadsOn_fresh : FileTree.LeadsOn "/fresh/settings.toml" := by
  intro p hp
  have hparse : FilePath.parse? "/fresh/settings.toml" = some ⟨["fresh", "settings.toml"], false⟩ :=
    by decide
  rw [hparse] at hp
  cases hp
  decide

/-- A file beside the way of the path, one in the way, and one at its end. -/
theorem old_file_spared :
    FileTree.entry? ((Access.forDaemon {}).perform (onEth0 "/fresh/settings.toml") (holding "old")).1
        ["settings.toml"] = some (.file (utf8 "old")) ∧
      (Access.writeDefault.perform (onEth0 "/settings.toml/settings.toml") (holding "old")).2 =
        .error (.unwritable "/settings.toml/settings.toml" .alreadyExists) ∧
      FileTree.entry?
        (Access.writeDefault.perform (onEth0 "/settings.toml/settings.toml") (holding "old")).1
        ["settings.toml"] = some (.file (utf8 "old")) ∧
      filesAfter (onEth0 "/settings.toml") (holding "old") [.load, .writeDefault, .forDaemon {}] =
        holding "old" := by
  obtain ⟨hspared, -, -, hexposed⟩ :=
    reading_spares_files (onEth0 "/fresh/settings.toml") (holding "old") [] (.forDaemon {})
  obtain ⟨-, hfailed, -⟩ :=
    reading_spares_files (onEth0 "/settings.toml/settings.toml") (holding "old") [] .writeDefault
  obtain ⟨-, -, hthere, -⟩ :=
    reading_spares_files (onEth0 "/settings.toml") (holding "old") [] .load
  have herror : (Access.writeDefault.perform (onEth0 "/settings.toml/settings.toml")
      (holding "old")).2 = .error (.unwritable "/settings.toml/settings.toml" .alreadyExists) := by
    decide
  have hold : FileTree.entry? (holding "old") ["settings.toml"] = some (.file (utf8 "old")) := rfl
  have hthrough := (hfailed _ herror nofun ["settings.toml"] (utf8 "old")).mpr hold
  refine ⟨?_, herror, hthrough, hthere rfl _⟩
  rcases hspared.kept ["settings.toml"] (utf8 "old") hold with hkept | hlost
  · exact hkept
  · exact absurd hlost (hexposed (rooted_holding "old") leadsOn_fresh _)

/-- The daemon writes the defaults first, and refuses what the environment makes of them then. -/
theorem defaults_left_by_refusal :
    let env : Environment := [("POPURA_CONFIG", "/settings.toml"), ("POPURA_RADV__ENABLE", "1")]
    let t' := ((Access.forDaemon {}).perform env ⟨[]⟩).1
    ((Access.forDaemon {}).perform env ⟨[]⟩).2 = .error (.invalid .advertiserWithoutInterface) ∧
      t'.entry? ["settings.toml"] ≠ none ∧ t'.entry? ["settings.toml"] ≠ some .directory := by
  intro env t'
  have hmissing : FileTree.pathExists ⟨[]⟩ (filePath env) = false := by decide
  have hfile : FileTree.leadsToDirectory (writeDefault env ⟨[]⟩).1 (filePath env) = false := by
    decide +kernel
  have hload : loadFrom (writeDefault env ⟨[]⟩).1 (filePath env) = .ok {} := by
    refine (loadFrom_writeDefault (loadFrom_of_missing hmissing)).resolve_right fun hdirectory => ?_
    exact Bool.false_ne_true (hfile.symm.trans hdirectory.2)
  have hrun : (forDaemon env ⟨[]⟩ {}).2 = .error .advertiserWithoutInterface := by
    rw [forDaemon_snd, unlessBroken_of_ok hload]
    decide
  have hpair : forDaemon env ⟨[]⟩ {} = (t', .error .advertiserWithoutInterface) :=
    Prod.ext rfl hrun
  refine ⟨by rw [Access.perform, hpair], ?_⟩
  decide +kernel

/-- A file that is exposed is lost: the path leads to it once the directory before the two dots has
been made. -/
example :
    FileTree.entry? (Access.writeDefault.perform (onEth0 "/new/../settings.toml") (holding "old")).1
      ["settings.toml"] ≠ some (.file (utf8 "old")) := by
  decide +kernel

end MeshNode.Settings
