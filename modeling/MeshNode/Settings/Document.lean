import MeshNode.Settings.Basic
import MeshNode.Toml.Printer
import MeshNode.Toml.Reader

/-!
# Settings as a document

Settings are kept as a TOML document of three tables. What a document leaves out takes its
default, what it names beyond the settings does not count, and a value of the wrong kind or
out of range makes it fail. A table of settings may also be given as an array of its values
in order.
-/

namespace MeshNode.Settings

open MeshNode.Toml

/-! ## Reading -/

/-- A number below a bound. -/
def numberBelow? (bound : Nat) : Toml → Option Nat
  | .integer n => if 0 ≤ n ∧ n < bound then some n.toNat else none
  | _ => none

/-- A number of 16 bits. -/
def number16? : Toml → Option Nat := numberBelow? 0x10000

/-- A number of 64 bits. -/
def number64? : Toml → Option Nat := numberBelow? 0x10000000000000000

/-- A truth value. -/
def boolean? : Toml → Option Bool
  | .boolean b => some b
  | _ => none

/-- A text. -/
def text? : Toml → Option String
  | .text s => some s
  | _ => none

/-- A list of texts. -/
def texts? : Toml → Option (List String)
  | .array items => items.mapM text?
  | _ => none

/-- What a document gives for a field of a table: the field's value, or nothing. The table is
written with names or as an array; a date counts as a table without fields. -/
def field? (v : Toml) (position : Nat) (name : String) : Option (Option Toml) :=
  match v with
  | .table entries => some (entries.lookup name)
  | .array items => some items[position]?
  | .datetime => some none
  | _ => none

/-- The value of a field, or its default. -/
def read? {α : Type} (convert : Toml → Option α) (default : α) (v : Toml) (position : Nat)
    (name : String) : Option α := do
  match ← field? v position name with
  | some x => convert x
  | none => some default

/-- The settings of the node itself. -/
def nodeOf? (v : Toml) : Option NodeSettings := do
  let d : NodeSettings := {}
  return {
    publicKey := ← read? text? d.publicKey v 0 "public_key"
    peers := ← read? texts? d.peers v 1 "peers"
    adminPort := ← read? number16? d.adminPort v 2 "admin_port" }

/-- The settings of the search for peers. -/
def peeringOf? (v : Toml) : Option PeeringSettings := do
  let d : PeeringSettings := {}
  return {
    enable := ← read? boolean? d.enable v 0 "enable"
    timeoutSecs := ← read? number64? d.timeoutSecs v 1 "timeout_secs"
    pollIntervalSecs := ← read? number64? d.pollIntervalSecs v 2 "poll_interval_secs"
    maxCandidates := ← read? number64? d.maxCandidates v 3 "max_candidates" }

/-- The settings of router advertisements. -/
def advertiserOf? (v : Toml) : Option AdvertiserSettings := do
  let d : AdvertiserSettings := {}
  return {
    enable := ← read? boolean? d.enable v 0 "enable"
    interface := ← read? text? d.interface v 1 "interface"
    setGatewayIp := ← read? boolean? d.setGatewayIp v 2 "set_gateway_ip"
    advertiseDefaultRouter :=
      ← read? boolean? d.advertiseDefaultRouter v 3 "advertise_default_router"
    advertiseDns := ← read? boolean? d.advertiseDns v 4 "advertise_dns"
    minIntervalSecs := ← read? number64? d.minIntervalSecs v 5 "min_interval_secs"
    maxIntervalSecs := ← read? number64? d.maxIntervalSecs v 6 "max_interval_secs" }

/-- The settings that a document's table holds. -/
def ofToml? (v : Toml) : Option Settings := do
  return {
    node := ← read? nodeOf? {} v 0 "node"
    autopeering := ← read? peeringOf? {} v 1 "autopeering"
    radv := ← read? advertiserOf? {} v 2 "radv" }

/-- The settings of a document. -/
def parse? (text : String) : Option Settings := do ofToml? (← Toml.parse? text)

/-! ## Writing -/

/-- The sections of the document. -/
def sections (s : Settings) : List Toml.Section :=
  [ ⟨"node",
      [ ("public_key", .text s.node.publicKey),
        ("peers", .texts s.node.peers),
        ("admin_port", .number s.node.adminPort) ]⟩,
    ⟨"autopeering",
      [ ("enable", .boolean s.autopeering.enable),
        ("timeout_secs", .number s.autopeering.timeoutSecs),
        ("poll_interval_secs", .number s.autopeering.pollIntervalSecs),
        ("max_candidates", .number s.autopeering.maxCandidates) ]⟩,
    ⟨"radv",
      [ ("enable", .boolean s.radv.enable),
        ("interface", .text s.radv.interface),
        ("set_gateway_ip", .boolean s.radv.setGatewayIp),
        ("advertise_default_router", .boolean s.radv.advertiseDefaultRouter),
        ("advertise_dns", .boolean s.radv.advertiseDns),
        ("min_interval_secs", .number s.radv.minIntervalSecs),
        ("max_interval_secs", .number s.radv.maxIntervalSecs) ]⟩ ]

/-- The document of some settings, unless a number has no written form. -/
def render? (s : Settings) : Option String :=
  (sectionsChars? s.sections).map String.ofList

end MeshNode.Settings
