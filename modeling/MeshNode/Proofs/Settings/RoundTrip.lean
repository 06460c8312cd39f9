import MeshNode.Proofs.Files
import MeshNode.Proofs.Toml.Documents
import MeshNode.Settings.Storage

/-!
# Settings saved and loaded

* **documents** — `parse?_render?`: the document of some settings is read back as those
  settings; `isSome_render?`: there is one unless a number is too great;
* **files** — `saved_and_loaded`: the same through a file at a path that can be written.
-/

namespace MeshNode.Settings

open MeshNode.Toml MeshNode.Text

variable {s : Settings} {files : FileTree} {path : String}

/-! ## Documents -/

/-- The numbers among the settings. -/
def numbers (s : Settings) : List Nat :=
  [ s.node.adminPort, s.autopeering.timeoutSecs, s.autopeering.pollIntervalSecs,
    s.autopeering.maxCandidates, s.radv.minIntervalSecs, s.radv.maxIntervalSecs ]

/-- Every number has a written form. -/
def Fits (s : Settings) : Prop := ∀ n ∈ s.numbers, n ≤ maxNumber

instance (s : Settings) : Decidable s.Fits := inferInstanceAs (Decidable (∀ n ∈ s.numbers, _))

/-- A port has 16 bits and every other number 64. -/
structure InRange (s : Settings) : Prop where
  port : s.node.adminPort < 0x10000
  numbers : ∀ n ∈ s.numbers, n < 0x10000000000000000

theorem isSome_render? (s : Settings) : s.render?.isSome ↔ s.Fits := by
  rw [render?, Option.isSome_map, isSome_sectionsChars?]
  simp only [sections, Fits, numbers, Printable.Fits, List.forall_mem_cons, List.not_mem_nil,
    false_implies, implies_true, true_and, and_true, and_assoc]

/-- The names that stand in the document of any settings. -/
def names : List (String × List String) :=
  [ ("node", ["public_key", "peers", "admin_port"]),
    ("autopeering", ["enable", "timeout_secs", "poll_interval_secs", "max_candidates"]),
    ("radv",
      ["enable", "interface", "set_gateway_ip", "advertise_default_router", "advertise_dns",
        "min_interval_secs", "max_interval_secs"]) ]

theorem names_sections (s : Settings) :
    s.sections.map (fun x => (x.name, x.entries.map (·.1))) = names := rfl

theorem isPlain_sections (s : Settings) : ∀ x ∈ s.sections, x.IsPlain := by
  have hplain : ∀ named ∈ names, ArePlain named.1 named.2 := by decide
  rw [← names_sections s, List.forall_mem_map] at hplain
  exact hplain

theorem nodup_sections (s : Settings) : (s.sections.map (·.name)).Nodup := by
  show ["node", "autopeering", "radv"].Nodup
  decide

theorem numberBelow?_of_lt {bound n : Nat} (h : n < bound) :
    numberBelow? bound (.integer n) = some n := by
  rw [numberBelow?, if_pos (by omega)]
  rfl

theorem texts?_map (items : List String) : texts? (.array (items.map .text)) = some items := by
  show (items.map Toml.text).mapM text? = some items
  induction items with
  | nil => rfl
  | cons t items ih =>
    rw [List.map_cons, List.mapM_cons, ih]
    rfl

theorem read?_table {α : Type} {convert : Toml → Option α} {default : α}
    {entries : List (String × Toml)} {position : Nat} (name : String) {v : Toml}
    (h : entries.lookup name = some v) :
    read? convert default (.table entries) position name = convert v := by
  rw [read?, field?, h]
  rfl

/-- The tables that the three sections spell. -/
def nodeTable (d : NodeSettings) : Toml :=
  .table [ ("public_key", .text d.publicKey), ("peers", .array (d.peers.map .text)),
    ("admin_port", .integer d.adminPort) ]

@[inherit_doc nodeTable]
def peeringTable (d : PeeringSettings) : Toml :=
  .table [ ("enable", .boolean d.enable), ("timeout_secs", .integer d.timeoutSecs),
    ("poll_interval_secs", .integer d.pollIntervalSecs),
    ("max_candidates", .integer d.maxCandidates) ]

@[inherit_doc nodeTable]
def advertiserTable (d : AdvertiserSettings) : Toml :=
  .table [ ("enable", .boolean d.enable), ("interface", .text d.interface),
    ("set_gateway_ip", .boolean d.setGatewayIp),
    ("advertise_default_router", .boolean d.advertiseDefaultRouter),
    ("advertise_dns", .boolean d.advertiseDns), ("min_interval_secs", .integer d.minIntervalSecs),
    ("max_interval_secs", .integer d.maxIntervalSecs) ]

theorem table_sections (s : Settings) : Toml.table (s.sections.map Section.toToml) =
    .table [ ("node", nodeTable s.node), ("autopeering", peeringTable s.autopeering),
      ("radv", advertiserTable s.radv) ] := rfl

theorem nodeOf?_nodeTable {d : NodeSettings} (hport : d.adminPort < 0x10000) :
    nodeOf? (nodeTable d) = some d := by
  have hnumber : number16? (.integer d.adminPort) = some d.adminPort := numberBelow?_of_lt hport
  rw [nodeTable, nodeOf?, read?_table "public_key" rfl, read?_table "peers" rfl,
    read?_table "admin_port" rfl, texts?_map, hnumber]
  rfl

theorem peeringOf?_peeringTable {d : PeeringSettings}
    (h : ∀ n ∈ [d.timeoutSecs, d.pollIntervalSecs, d.maxCandidates],
      number64? (.integer n) = some n) : peeringOf? (peeringTable d) = some d := by
  simp only [List.forall_mem_cons, List.not_mem_nil, false_implies, implies_true, and_true] at h
  rw [peeringTable, peeringOf?, read?_table "enable" rfl, read?_table "timeout_secs" rfl,
    read?_table "poll_interval_secs" rfl, read?_table "max_candidates" rfl, h.1, h.2.1, h.2.2]
  rfl

theorem advertiserOf?_advertiserTable {d : AdvertiserSettings}
    (h : ∀ n ∈ [d.minIntervalSecs, d.maxIntervalSecs], number64? (.integer n) = some n) :
    advertiserOf? (advertiserTable d) = some d := by
  simp only [List.forall_mem_cons, List.not_mem_nil, false_implies, implies_true, and_true] at h
  rw [advertiserTable, advertiserOf?, read?_table "enable" rfl, read?_table "interface" rfl,
    read?_table "set_gateway_ip" rfl, read?_table "advertise_default_router" rfl,
    read?_table "advertise_dns" rfl, read?_table "min_interval_secs" rfl,
    read?_table "max_interval_secs" rfl, h.1, h.2]
  rfl

/-- Every entry of the document gives back the setting that it was written for. -/
theorem ofToml?_sections (hs : s.InRange) :
    ofToml? (.table (s.sections.map Section.toToml)) = some s := by
  have hnumber : ∀ n ∈ s.numbers, number64? (.integer n) = some n :=
    fun n hn => numberBelow?_of_lt (hs.numbers n hn)
  have hpeering : peeringOf? (peeringTable s.autopeering) = some s.autopeering :=
    peeringOf?_peeringTable fun n hn =>
      hnumber n (List.mem_cons_of_mem _ (List.mem_append_left
        [s.radv.minIntervalSecs, s.radv.maxIntervalSecs] hn))
  have hradv : advertiserOf? (advertiserTable s.radv) = some s.radv :=
    advertiserOf?_advertiserTable fun n hn =>
      hnumber n (List.mem_cons_of_mem _ (List.mem_append_right
        [s.autopeering.timeoutSecs, s.autopeering.pollIntervalSecs, s.autopeering.maxCandidates]
        hn))
  rw [table_sections, ofToml?, read?_table "node" rfl, read?_table "autopeering" rfl,
    read?_table "radv" rfl, nodeOf?_nodeTable hs.port, hpeering, hradv]
  rfl

/-- The document of some settings is read back as those settings. -/
theorem parse?_render? (hs : s.InRange) {text : String} (h : s.render? = some text) :
    parse? text = some s := by
  obtain ⟨chars, hchars, rfl⟩ := Option.map_eq_some_iff.mp h
  rw [parse?, parse?_sections s.isPlain_sections s.nodup_sections hchars]
  exact ofToml?_sections hs

/-! ## Files -/

theorem loadFrom_of_missing (h : files.pathExists path = false) : loadFrom files path = .ok {} := by
  rw [loadFrom, h]
  rfl

/-- What is loaded from a text file depends on the text alone. -/
theorem loadFrom_of_find {p : FilePath} {text : String} (hp : FilePath.parse? path = some p)
    (hfind : files.find p = .ok (.file (utf8 text))) :
    loadFrom files path =
      match parse? text with
      | some s => .ok s
      | none => .error (.malformed path) := by
  have hexists := FileTree.pathExists_eq_true.mpr ⟨p, _, hp, hfind⟩
  rw [loadFrom, hexists, FileTree.readText_of_find hp hfind]
  rfl

/-- Settings are loaded from the file that they were written to. -/
theorem loadFrom_write (hs : s.InRange) {text : String} (htext : s.render? = some text)
    {files' : FileTree} (h : files.write path (utf8 text) = .ok files') :
    loadFrom files' path = .ok s := by
  obtain ⟨p, -, hp, -⟩ := FileTree.write_eq_ok.mp h
  rw [loadFrom_of_find hp (FileTree.find_write hp h), parse?_render? hs htext]

theorem writeTo_of_none (h : s.render? = none) {files' : FileTree}
    (hparents : files.makeParents path = (files', .ok ())) :
    s.writeTo files path = (files', .error .unprintable) := by
  rw [writeTo, hparents]
  dsimp only
  rw [h]

/-- Settings whose numbers fit come back from a file as they were saved. Others are not saved
at all, and a file in their place stays as it was. -/
theorem saved_and_loaded (hs : s.InRange) (files : FileTree) (path : String) :
    (s.Fits → files.IsWritable path →
      (s.writeTo files path).2 = .ok () ∧ loadFrom (s.writeTo files path).1 path = .ok s) ∧
    (¬ s.Fits →
      s.render? = none ∧
      ((files.makeParents path).2 = .ok () →
        (s.writeTo files path).2 = .error .unprintable) ∧
      ∀ content, files.fileAt? path = some content →
        (s.writeTo files path).2 = .error .unprintable ∧
          (s.writeTo files path).1.fileAt? path = some content) := by
  constructor
  · rintro hfits ⟨files₁, hparents, hwrite⟩
    obtain ⟨text, htext⟩ := Option.isSome_iff_exists.mp ((isSome_render? s).mpr hfits)
    obtain ⟨files₂, hwritten⟩ := hwrite (utf8 text)
    have hresult : s.writeTo files path = (files₂, .ok ()) := by
      rw [writeTo, hparents]
      dsimp only
      rw [htext]
      dsimp only
      rw [hwritten]
    rw [hresult]
    exact ⟨rfl, loadFrom_write hs htext hwritten⟩
  · intro hfits
    have hnone : s.render? = none := by
      rw [← Option.not_isSome_iff_eq_none, isSome_render?]
      exact hfits
    refine ⟨hnone, fun hparents => ?_, fun content hfile => ?_⟩
    · rw [writeTo_of_none hnone (Prod.ext rfl hparents)]
    · obtain ⟨p, hp, hfind⟩ := FileTree.fileAt?_eq_some.mp hfile
      have hexists := FileTree.pathExists_eq_true.mpr ⟨p, _, hp, hfind⟩
      rw [writeTo_of_none hnone (FileTree.makeParents_of_pathExists hexists)]
      exact ⟨rfl, hfile⟩

/-- Settings with a text for each of the forms, and with characters that no form holds as
they are. -/
def awkward : Settings :=
  { node :=
      { publicKey := "\x07 \"\x27\x27\x27\"\"\" \\ \x7f\n"
        peers := ["\"", "\x27\n", "\\\n", "", "é\r"] } }

/-- Settings with the least number that has no written form. -/
def overgrown : Settings := { radv := { maxIntervalSecs := 0x8000000000000000 } }

theorem awkward_saved_overgrown_refused :
    loadFrom (awkward.writeTo ⟨[]⟩ "new/settings.toml").1 "new/settings.toml" = .ok awkward ∧
      (overgrown.writeTo ⟨[(["settings.toml"], .file [0x23])]⟩ "settings.toml").1.fileAt?
        "settings.toml" = some [0x23] := by
  have hwritable : (⟨[]⟩ : FileTree).IsWritable "new/settings.toml" := by
    refine FileTree.isWritable_of_plain (p := ⟨["new", "settings.toml"], false⟩) (by decide) rfl
      (by decide) (by decide) ?_ (by decide)
    intro q _ _ content
    cases q with
    | nil => nofun
    | cons name q => nofun
  have hawkward : awkward.InRange := ⟨by decide, by decide⟩
  have hovergrown : overgrown.InRange := ⟨by decide, by decide⟩
  refine ⟨((saved_and_loaded hawkward ⟨[]⟩ _).1 ?_ hwritable).2,
    (((saved_and_loaded hovergrown _ _).2 ?_).2.2 [0x23] ?_).2⟩
  · decide
  · decide
  · decide

end MeshNode.Settings
