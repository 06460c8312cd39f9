import MeshNode.Proofs.Settings.RoundTrip
import MeshNode.Settings.Layers

/-!
# The layers of the daemon's settings

* **what a file says** — `fileSettings`: each setting looked up by itself in the document;
  `fileSettings_of_loadFrom` says that a file that can be loaded gives those;
* **one setting at a time** — `layered`: which layer decides each setting;
  `applyArgs_override` says that the two steps of the daemon come to that;
* **first runs** — `loadFrom_writeDefault`: the default document that is written for a missing
  file holds the settings that a missing file stands for, unless the path has come to lead to
  a directory on the way;
* **a file that cannot be used** — `obeys_iff`: the daemon then goes back to the defaults and
  leaves the environment out of account;
* **all layers** — `forDaemon_intended_iff`: when the daemon runs with the settings that file,
  environment and command line give together.
-/

namespace MeshNode.Settings

open MeshNode.Text MeshNode.CommandLine

variable {env : Environment} {files : FileTree} {args : DaemonArgs} {s base c : Settings}
  {path : String}

/-! ## What a file says -/

/-- The table of a section, if the document has one. -/
def table? (v : Toml) (position : Nat) (name : String) : Option Toml :=
  (field? v position name).join

/-- What a table gives for a field, if it has the field and what stands there is of its kind. -/
def given? {α : Type} (convert : Toml → Option α) (table : Option Toml) (position : Nat)
    (name : String) : Option α :=
  (table.bind fun v => (field? v position name).join).bind convert

/-- The settings that a table gives, each by itself: what stands in its field, or its default. -/
def nodeIn (table : Option Toml) : NodeSettings where
  publicKey := (given? text? table 0 "public_key").getD ""
  peers := (given? texts? table 1 "peers").getD []
  adminPort := (given? number16? table 2 "admin_port").getD 9101

@[inherit_doc nodeIn]
def peeringIn (table : Option Toml) : PeeringSettings where
  enable := (given? boolean? table 0 "enable").getD false
  timeoutSecs := (given? number64? table 1 "timeout_secs").getD 60
  pollIntervalSecs := (given? number64? table 2 "poll_interval_secs").getD 10
  maxCandidates := (given? number64? table 3 "max_candidates").getD 10

@[inherit_doc nodeIn]
def advertiserIn (table : Option Toml) : AdvertiserSettings where
  enable := (given? boolean? table 0 "enable").getD false
  interface := (given? text? table 1 "interface").getD ""
  setGatewayIp := (given? boolean? table 2 "set_gateway_ip").getD false
  advertiseDefaultRouter := (given? boolean? table 3 "advertise_default_router").getD false
  advertiseDns := (given? boolean? table 4 "advertise_dns").getD false
  minIntervalSecs := (given? number64? table 5 "min_interval_secs").getD 200
  maxIntervalSecs := (given? number64? table 6 "max_interval_secs").getD 600

/-- The document in a file, if there is one. -/
def document? (files : FileTree) (path : String) : Option Toml :=
  (files.readText path).toOption.bind Toml.parse?

/-- What a file says, one setting at a time. -/
def fileSettings (files : FileTree) (path : String) : Settings where
  node := nodeIn ((document? files path).bind (table? · 0 "node"))
  autopeering := peeringIn ((document? files path).bind (table? · 1 "autopeering"))
  radv := advertiserIn ((document? files path).bind (table? · 2 "radv"))

theorem read?_eq_some {α : Type} {convert : Toml → Option α} {default a : α} {v : Toml}
    {position : Nat} {name : String} (h : read? convert default v position name = some a) :
    (∃ x, table? v position name = some x ∧ convert x = some a) ∨
      table? v position name = none ∧ a = default := by
  simp only [read?, Option.bind_eq_bind, Option.bind_eq_some_iff] at h
  obtain ⟨found, hfield, h⟩ := h
  rw [table?, hfield]
  cases found with
  | none => exact Or.inr ⟨rfl, (Option.some.inj h).symm⟩
  | some x => exact Or.inl ⟨x, rfl, h⟩

theorem getD_given? {α : Type} {convert : Toml → Option α} {default a : α} {v : Toml}
    {position : Nat} {name : String} (h : read? convert default v position name = some a) :
    (given? convert (some v) position name).getD default = a := by
  show (((table? v position name).bind convert)).getD default = a
  rcases read?_eq_some h with ⟨x, hx, hconvert⟩ | ⟨hnone, rfl⟩
  · rw [hx, Option.bind_some, hconvert]
    rfl
  · rw [hnone]
    rfl

theorem nodeOf?_eq_some {v : Toml} {d : NodeSettings} (h : nodeOf? v = some d) :
    nodeIn (some v) = d := by
  simp only [nodeOf?, Option.bind_eq_bind, Option.bind_eq_some_iff] at h
  obtain ⟨_, hkey, _, hpeers, _, hport, heq⟩ := h
  cases heq
  rw [nodeIn, getD_given? hkey, getD_given? hpeers, getD_given? hport]

theorem peeringOf?_eq_some {v : Toml} {d : PeeringSettings} (h : peeringOf? v = some d) :
    peeringIn (some v) = d := by
  simp only [peeringOf?, Option.bind_eq_bind, Option.bind_eq_some_iff] at h
  obtain ⟨_, henable, _, htimeout, _, hpoll, _, hcandidates, heq⟩ := h
  cases heq
  rw [peeringIn, getD_given? henable, getD_given? htimeout, getD_given? hpoll,
    getD_given? hcandidates]

theorem advertiserOf?_eq_some {v : Toml} {d : AdvertiserSettings} (h : advertiserOf? v = some d) :
    advertiserIn (some v) = d := by
  simp only [advertiserOf?, Option.bind_eq_bind, Option.bind_eq_some_iff] at h
  obtain ⟨_, henable, _, hinterface, _, hgateway, _, hrouter, _, hdns, _, hmin, _, hmax, heq⟩ := h
  cases heq
  rw [advertiserIn, getD_given? henable, getD_given? hinterface, getD_given? hgateway,
    getD_given? hrouter, getD_given? hdns, getD_given? hmin, getD_given? hmax]

/-- A section that is there is read whole, and one that is not there has every default. -/
theorem section_eq {α : Type} {convert : Toml → Option α} {inTable : Option Toml → α} {a : α}
    {v : Toml} {position : Nat} {name : String}
    (hsome : ∀ {x a}, convert x = some a → inTable (some x) = a)
    (h : read? convert (inTable none) v position name = some a) :
    inTable (table? v position name) = a := by
  rcases read?_eq_some h with ⟨x, hx, hconvert⟩ | ⟨hnone, rfl⟩
  · rw [hx]
    exact hsome hconvert
  · rw [hnone]

/-- What is loaded is what the file says. -/
theorem fileSettings_of_loadFrom (h : loadFrom files path = .ok base) :
    fileSettings files path = base := by
  cases hread : files.readText path with
  | error cause =>
    rw [loadFrom, hread] at h
    split at h
    · cases h
      rw [fileSettings, document?, hread]
      rfl
    · cases h
  | ok text =>
    have hexists : files.pathExists path = true := FileTree.pathExists_of_readText hread
    rw [loadFrom, hexists, hread] at h
    simp only [Bool.not_true, Bool.false_eq_true, if_false] at h
    split at h
    · next s hparse =>
      cases h
      simp only [parse?, Option.bind_eq_bind, Option.bind_eq_some_iff, ofToml?] at hparse
      obtain ⟨v, hv, _, hnode, _, hautopeering, _, hradv, heq⟩ := hparse
      cases heq
      have hdocument : document? files path = some v := by
        rw [document?, hread]
        exact hv
      rw [fileSettings, hdocument]
      simp only [Option.bind_some]
      rw [section_eq nodeOf?_eq_some hnode, section_eq peeringOf?_eq_some hautopeering,
        section_eq advertiserOf?_eq_some hradv]
    · cases h

/-! ## One setting at a time -/

/-- A variable that switches something on or off, if it is set. -/
def switch? (env : Environment) (name : String) : Option Bool :=
  (env.lookup name).map fun value => decide (value = "true" ∨ value = "1")

/-- The settings of which each is taken from the command line, else from the environment, else
from a file. The command line only ever switches the search for peers on, and only for a file
without peers. -/
def layered (env : Environment) (args : DaemonArgs) (base : Settings) : Settings :=
  { node :=
      { base.node with
        adminPort :=
          ((env.lookup "POPURA_NODE__ADMIN_PORT").bind fun text => (parsePort text).toOption).getD
            base.node.adminPort }
    autopeering :=
      { base.autopeering with
        enable :=
          if args.autopeer ∧ base.node.peers = [] then true
          else (switch? env "POPURA_AUTOPEERING__ENABLE").getD base.autopeering.enable }
    radv :=
      { base.radv with
        interface :=
          (args.interface <|> env.lookup "POPURA_RADV__INTERFACE").getD base.radv.interface
        enable :=
          if args.interface.isSome then true
          else (switch? env "POPURA_RADV__ENABLE").getD base.radv.enable } }

/-- The settings that the daemon is meant to run with. -/
def intended (env : Environment) (files : FileTree) (args : DaemonArgs) : Settings :=
  layered env args (fileSettings files (filePath env))

theorem map_isOn (env : Environment) (name : String) :
    (env.lookup name).map isOn = switch? env name := by
  have hon : isOn = fun value => decide (value = "true" ∨ value = "1") := by
    funext value
    rw [isOn, Bool.eq_iff_iff, Bool.or_eq_true, beq_iff_eq, beq_iff_eq, decide_eq_true_eq]
  rw [switch?, hon]

theorem applyArgs_eq (args : DaemonArgs) (s : Settings) :
    applyArgs args s =
      { node := s.node
        autopeering :=
          { s.autopeering with
            enable := if args.autopeer ∧ s.node.peers = [] then true else s.autopeering.enable }
        radv :=
          { s.radv with
            interface := args.interface.getD s.radv.interface
            enable := if args.interface.isSome then true else s.radv.enable } } := by
  unfold applyArgs
  cases args.interface with
  | none =>
    dsimp only
    split
    · rfl
    · rfl
  | some interface =>
    dsimp only
    split
    · rfl
    · rfl

/-- The steps of the daemon, one for the environment and one for the command line, come to the
layers. -/
theorem applyArgs_override (env : Environment) (args : DaemonArgs) (base : Settings) :
    applyArgs args (override env base) = layered env args base := by
  rw [applyArgs_eq, override, layered, map_isOn, map_isOn]
  cases args.interface with
  | none => rfl
  | some interface => rfl

/-! ## First runs -/

/-- A path to a directory gives no settings. -/
theorem loadFrom_of_directory (h : files.leadsToDirectory path = true) :
    ∃ e, loadFrom files path = .error e := by
  obtain ⟨p, hp, hfind⟩ := FileTree.leadsToDirectory_eq_true.mp h
  have hexists : files.pathExists path = true :=
    FileTree.pathExists_eq_true.mpr ⟨p, _, hp, hfind⟩
  have hread : files.readText path = .error .isADirectory := by
    rw [FileTree.readText, hp]
    show (files.find p >>= _) = _
    rw [hfind]
    rfl
  refine ⟨.unreadable path .isADirectory, ?_⟩
  rw [loadFrom, hexists, hread]
  rfl

theorem inRange_default : ({} : Settings).InRange := ⟨by decide, by decide⟩

/-- Where the default settings were to be written they are loaded, be it as a document or for
want of one, or the path has come to lead to a directory. -/
theorem loadFrom_writeTo_default (files : FileTree) (path : String) :
    loadFrom (writeTo {} files path).1 path = .ok {} ∨
      (writeTo {} files path).1.leadsToDirectory path = true := by
  obtain ⟨text, htext⟩ := Option.isSome_iff_exists.mp ((isSome_render? {}).mpr (by decide))
  unfold writeTo
  cases hparents : files.makeParents path with
  | mk files₁ result =>
    cases result with
    | error cause => exact Or.inl (loadFrom_of_missing (FileTree.makeParents_error hparents))
    | ok made =>
      dsimp only
      rw [htext]
      dsimp only
      cases hwrite : files₁.write path (utf8 text) with
      | error cause =>
        rcases FileTree.write_error hwrite with hmissing | hdirectory
        · exact Or.inl (loadFrom_of_missing hmissing)
        · exact Or.inr hdirectory
      | ok files₂ => exact Or.inl (loadFrom_write inRange_default htext hwrite)

theorem writeDefault_of_pathExists (h : files.pathExists (filePath env) = true) :
    (writeDefault env files).1 = files := by
  unfold writeDefault
  dsimp only
  rw [if_pos h]

theorem writeDefault_of_missing (h : files.pathExists (filePath env) = false) :
    Settings.writeDefault env files =
      ((writeTo {} files (filePath env)).1,
        (writeTo {} files (filePath env)).2.map fun _ => filePath env) := by
  unfold Settings.writeDefault
  dsimp only
  rw [if_neg (Bool.eq_false_iff.mp h)]

/-- What the settings file holds is not changed by writing a default document in its place if
it is missing, as long as its path has not come to lead to a directory. -/
theorem loadFrom_writeDefault (h : loadFrom files (filePath env) = .ok base) :
    loadFrom (writeDefault env files).1 (filePath env) = .ok base ∨
      base = {} ∧ (writeDefault env files).1.leadsToDirectory (filePath env) = true := by
  cases hexists : files.pathExists (filePath env) with
  | true =>
    rw [writeDefault_of_pathExists hexists]
    exact Or.inl h
  | false =>
    rw [loadFrom_of_missing hexists] at h
    cases h
    rw [writeDefault_of_missing hexists]
    exact (loadFrom_writeTo_default files _).imp id fun hdirectory => ⟨rfl, hdirectory⟩

/-! ## Files that cannot be used -/

/-- The settings before the command line counts: those of the file and the environment, or the
defaults if the file cannot be used. -/
def unlessBroken (env : Environment) (files : FileTree) : Settings :=
  match load env files with
  | .ok s => s
  | .error _ => {}

theorem forDaemon_snd (env : Environment) (files : FileTree) (args : DaemonArgs) :
    (forDaemon env files args).2 =
      (applyArgs args (unlessBroken env (writeDefault env files).1)).validate.map fun _ =>
        applyArgs args (unlessBroken env (writeDefault env files).1) := rfl

theorem unlessBroken_of_ok (h : loadFrom files (filePath env) = .ok base) :
    unlessBroken env files = override env base := by
  rw [unlessBroken, load, h]
  rfl

theorem unlessBroken_of_error {e : SettingsError} (h : loadFrom files (filePath env) = .error e) :
    unlessBroken env files = {} := by
  rw [unlessBroken, load, h]
  rfl

theorem map_validate_eq_ok :
    (s.validate.map fun _ => s) = .ok c ↔ s.validate = .ok () ∧ s = c := by
  cases s.validate with
  | error e => exact iff_of_false nofun nofun
  | ok checked =>
    constructor
    · rintro ⟨⟩
      exact ⟨rfl, rfl⟩
    · rintro ⟨-, rfl⟩
      rfl

/-- Each variable that is set decides its setting; a port does if it is a number of 16 bits. -/
structure Obeys (s : Settings) (env : Environment) : Prop where
  interface : ∀ text, env.lookup "POPURA_RADV__INTERFACE" = some text → s.radv.interface = text
  advertiser : ∀ on, switch? env "POPURA_RADV__ENABLE" = some on → s.radv.enable = on
  peering : ∀ on, switch? env "POPURA_AUTOPEERING__ENABLE" = some on → s.autopeering.enable = on
  port : ∀ text port, env.lookup "POPURA_NODE__ADMIN_PORT" = some text →
    parsePort text = .ok port → s.node.adminPort = port

theorem obeys_override (env : Environment) (s : Settings) : (override env s).Obeys env where
  interface text h := by
    show (env.lookup _).getD _ = _
    rw [h]
    rfl
  advertiser on h := by
    show ((env.lookup _).map isOn).getD _ = _
    rw [map_isOn, h]
    rfl
  peering on h := by
    show ((env.lookup _).map isOn).getD _ = _
    rw [map_isOn, h]
    rfl
  port text port h hport := by
    show ((env.lookup _).bind fun text => (parsePort text).toOption).getD _ = _
    rw [h, Option.bind_some, hport]
    rfl

theorem applyArgs_of_none (hinterface : args.interface = none) (hautopeer : args.autopeer = false)
    (s : Settings) : applyArgs args s = s := by
  rw [applyArgs_eq, hinterface, hautopeer]
  rfl

/-- Without word from the command line the environment decides exactly if the settings file can
be used, or if the defaults are what the environment says anyway. -/
theorem obeys_iff (hinterface : args.interface = none) (hautopeer : args.autopeer = false)
    (h : (forDaemon env files args).2 = .ok c) :
    c.Obeys env ↔
      (loadFrom (writeDefault env files).1 (filePath env)).isOk ∨ ({} : Settings).Obeys env := by
  rw [forDaemon_snd, map_validate_eq_ok] at h
  obtain ⟨-, rfl⟩ := h
  rw [applyArgs_of_none hinterface hautopeer]
  cases hload : loadFrom (writeDefault env files).1 (filePath env) with
  | ok base =>
    rw [unlessBroken_of_ok hload]
    exact iff_of_true (obeys_override env base) (Or.inl rfl)
  | error e =>
    rw [unlessBroken_of_error hload]
    exact (or_iff_right Bool.false_ne_true).symm

/-- An environment that names a settings file and a link. -/
def onEth0 (path : String) : Environment :=
  [("POPURA_CONFIG", path), ("POPURA_RADV__INTERFACE", "eth0")]

/-- A settings file of a given text. -/
def holding (text : String) : FileTree := ⟨[(["settings.toml"], .file (utf8 text))]⟩

theorem writeDefault_holding (text : String) :
    (writeDefault (onEth0 "/settings.toml") (holding text)).1 = holding text :=
  writeDefault_of_pathExists rfl

theorem filePath_onEth0 (path : String) : filePath (onEth0 path) = path := rfl

theorem loadFrom_holding (text : String) :
    loadFrom (holding text) (filePath (onEth0 "/settings.toml")) =
      match parse? text with
      | some s => .ok s
      | none => .error (.malformed "/settings.toml") := by
  rw [filePath_onEth0]
  exact loadFrom_of_find (p := ⟨["settings.toml"], false⟩) (by decide) rfl

theorem interface_kept_beside_partial_file :
    (⟨{}, {}, { interface := "eth0", minIntervalSecs := 100 }⟩ : Settings).Obeys
      (onEth0 "/settings.toml") := by
  have hload : loadFrom (holding "[radv]\nmin_interval_secs = 100\n")
      (filePath (onEth0 "/settings.toml")) = .ok { radv := { minIntervalSecs := 100 } } := by
    rw [loadFrom_holding]
    decide +kernel
  have hrun : (forDaemon (onEth0 "/settings.toml")
      (holding "[radv]\nmin_interval_secs = 100\n") {}).2 =
        .ok ⟨{}, {}, { interface := "eth0", minIntervalSecs := 100 }⟩ := by
    rw [forDaemon_snd, writeDefault_holding, unlessBroken_of_ok hload]
    decide +kernel
  refine (obeys_iff rfl rfl hrun).mpr (Or.inl ?_)
  rw [writeDefault_holding, hload]
  rfl

/-- A file that cannot be parsed takes the link that a variable names with it. -/
theorem interface_lost_to_garbled_file :
    (forDaemon (onEth0 "/settings.toml") (holding "not toml [") {}).2 = .ok {} ∧
      ¬ ({} : Settings).Obeys (onEth0 "/settings.toml") := by
  have herror : loadFrom (holding "not toml [") (filePath (onEth0 "/settings.toml")) =
      .error (.malformed "/settings.toml") := by
    rw [loadFrom_holding]
    decide
  constructor
  · rw [forDaemon_snd, writeDefault_holding, unlessBroken_of_error herror]
    decide
  · intro h
    exact absurd (h.interface "eth0" rfl) (by decide)

/-! ## All layers -/

theorem validate_of_plain (hkey : s.node.publicKey = "")
    (hinterval : s.radv.minIntervalSecs ≤ s.radv.maxIntervalSecs)
    (hpoll : s.autopeering.pollIntervalSecs ≠ 0) :
    s.validate =
      if s.radv.enable ∧ s.radv.interface = "" then .error .advertiserWithoutInterface
      else .ok () := by
  have hnone : s.publicKey = .ok none := by
    rw [publicKey, if_pos hkey]
  rw [validate, hnone]
  dsimp only
  rw [if_neg (Nat.not_lt.mpr hinterval), if_neg hpoll]

/-- With a settings file that is missing or can be loaded, the daemon runs with the intended
settings or refuses them, exactly if the path does not come to lead to a directory when the
directories on the way to it are made, or if it makes no difference: the command line alone says
the same, or nothing could run with either. -/
theorem forDaemon_intended_iff (h : (loadFrom files (filePath env)).isOk) :
    (forDaemon env files args).2 =
        ((intended env files args).validate.map fun _ => intended env files args) ↔
      (writeDefault env files).1.leadsToDirectory (filePath env) = false ∨
        intended env files args = applyArgs args {} ∨ args.interface = some "" := by
  obtain ⟨base, h⟩ : ∃ base, loadFrom files (filePath env) = .ok base := by
    cases hload : loadFrom files (filePath env) with
    | error e =>
      rw [hload] at h
      cases h
    | ok base => exact ⟨base, rfl⟩
  rw [intended, fileSettings_of_loadFrom h]
  rcases loadFrom_writeDefault h with hload | ⟨rfl, hdirectory⟩
  · have hfile : (writeDefault env files).1.leadsToDirectory (filePath env) = false := by
      rw [Bool.eq_false_iff]
      intro hdirectory
      obtain ⟨e, herror⟩ := loadFrom_of_directory hdirectory
      rw [hload] at herror
      cases herror
    rw [forDaemon_snd, unlessBroken_of_ok hload, applyArgs_override]
    exact iff_of_true rfl (Or.inl hfile)
  · -- the file was missing, and what leads to a directory now cannot be read: only the command
    -- line counts, and it can be refused only for want of a link
    obtain ⟨e, herror⟩ := loadFrom_of_directory hdirectory
    have hargs : (applyArgs args {}).validate =
        if args.interface = some "" then .error .advertiserWithoutInterface else .ok () := by
      rw [applyArgs_eq, validate_of_plain rfl (show 200 ≤ 600 by omega) (show 10 ≠ 0 by omega)]
      cases args.interface with
      | none => simp
      | some interface => simp
    have hlayered : args.interface = some "" →
        (layered env args {}).validate = .error .advertiserWithoutInterface := by
      intro hempty
      rw [layered, validate_of_plain rfl (show 200 ≤ 600 by omega) (show 10 ≠ 0 by omega), hempty]
      rfl
    rw [forDaemon_snd, unlessBroken_of_error herror]
    by_cases hempty : args.interface = some ""
    · rw [hargs, if_pos hempty, hlayered hempty]
      exact iff_of_true rfl (Or.inr (Or.inr hempty))
    · rw [if_neg hempty] at hargs
      rw [hargs, eq_comm]
      show ((layered env args {}).validate.map fun _ => layered env args {}) =
        .ok (applyArgs args {}) ↔ _
      rw [map_validate_eq_ok]
      constructor
      · rintro ⟨-, heq⟩
        exact Or.inr (Or.inl heq)
      · rintro (hfile | heq | hsome)
        · rw [hdirectory] at hfile
          cases hfile
        · exact ⟨heq ▸ hargs, heq⟩
        · exact absurd hsome hempty

theorem layers_of_partial_file :
    (forDaemon (onEth0 "/settings.toml") (holding "[node]\nadmin_port = 9000\n")
      { autopeer := true }).2 =
        .ok ⟨{ adminPort := 9000 }, { enable := true }, { interface := "eth0" }⟩ := by
  have hload : loadFrom (holding "[node]\nadmin_port = 9000\n")
      (filePath (onEth0 "/settings.toml")) = .ok { node := { adminPort := 9000 } } := by
    rw [loadFrom_holding]
    decide +kernel
  rw [(forDaemon_intended_iff (by rw [hload]; rfl)).mpr (Or.inl ?_)]
  · rw [intended, fileSettings_of_loadFrom hload]
    decide +kernel
  · rw [writeDefault_holding]
    rfl

/-- On the way to a missing file a directory is made to which the path then leads, and the link
that a variable names is lost. -/
theorem interface_lost_to_made_directory :
    loadFrom ⟨[]⟩ (filePath (onEth0 "/new/..")) = .ok {} ∧
      (forDaemon (onEth0 "/new/..") ⟨[]⟩ {}).2 ≠
        ((intended (onEth0 "/new/..") ⟨[]⟩ {}).validate.map fun _ =>
          intended (onEth0 "/new/..") ⟨[]⟩ {}) := by
  decide

end MeshNode.Settings
