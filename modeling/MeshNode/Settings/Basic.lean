import MeshNode.Duration
import MeshNode.Octets
import MeshNode.Text.Hex
import MeshNode.Text.Utf8

/-!
# Settings

What a node can be told: its key and peers, when to look for peers by itself, and whether
to advertise its subnet on a link. Some settings that can be written down are refused,
because nothing could run with them.
-/

namespace MeshNode

open MeshNode.Text

/-- The node itself. -/
structure NodeSettings where
  /-- The public key in hexadecimal; empty for one made at start. -/
  publicKey : String := ""
  /-- The URLs of the peers to dial at start. -/
  peers : List String := []
  /-- The loopback port of the administration interface; zero for none. -/
  adminPort : Nat := 9101
deriving DecidableEq

/-- The search for peers. -/
structure PeeringSettings where
  enable : Bool := false
  /-- How long the node may be without an Internet peer before it looks for one. -/
  timeoutSecs : Nat := 60
  /-- How long to wait between two looks at the peer table. -/
  pollIntervalSecs : Nat := 10
  /-- Among how many of the fastest peers to choose. -/
  maxCandidates : Nat := 10
deriving DecidableEq

/-- Router advertisements. -/
structure AdvertiserSettings where
  enable : Bool := false
  /-- The link to advertise on. -/
  interface : String := ""
  /-- Whether to give the link the gateway address of the subnet. -/
  setGatewayIp : Bool := false
  /-- Whether to announce a default route instead of one to the mesh. -/
  advertiseDefaultRouter : Bool := false
  /-- Whether to announce a name server at the link's own address. -/
  advertiseDns : Bool := false
  minIntervalSecs : Nat := 200
  maxIntervalSecs : Nat := 600
deriving DecidableEq

/-- All settings. -/
structure Settings where
  node : NodeSettings := {}
  autopeering : PeeringSettings := {}
  radv : AdvertiserSettings := {}
deriving DecidableEq

/-- How long the node may be without an Internet peer. -/
def PeeringSettings.timeout (s : PeeringSettings) : Duration := .ofSecs s.timeoutSecs

/-- How long to wait between two looks at the peer table. -/
def PeeringSettings.pollInterval (s : PeeringSettings) : Duration := .ofSecs s.pollIntervalSecs

/-- The least time between two unsolicited advertisements. -/
def AdvertiserSettings.minInterval (s : AdvertiserSettings) : Duration := .ofSecs s.minIntervalSecs

/-- The greatest time between two unsolicited advertisements. -/
def AdvertiserSettings.maxInterval (s : AdvertiserSettings) : Duration := .ofSecs s.maxIntervalSecs

/-! ## Validation -/

/-- Why nothing could run with some settings. -/
inductive InvalidSettings
  | publicKeyDigits (cause : HexError)
  | publicKeyLength (length : Nat)
  | advertiserWithoutInterface
  | emptyInterval (least greatest : Nat)
  | zeroPollInterval
deriving DecidableEq

/-- The wording of what is wrong with some settings. -/
def InvalidSettings.message : InvalidSettings → String
  | .publicKeyDigits cause => s!"node.public_key: {cause.message}"
  | .publicKeyLength n => s!"node.public_key: expected 32 bytes, got {n}"
  | .advertiserWithoutInterface => "radv.enable requires radv.interface"
  | .emptyInterval least greatest =>
    s!"radv.min_interval_secs ({least}) exceeds radv.max_interval_secs ({greatest})"
  | .zeroPollInterval => "autopeering.poll_interval_secs must be non-zero"

namespace Settings

/-- The public key, if one is set. -/
def publicKey (s : Settings) : Except InvalidSettings (Option NodeKey) :=
  if s.node.publicKey = "" then .ok none
  else
    match decodeHex (utf8 s.node.publicKey) with
    | .error cause => .error (.publicKeyDigits cause)
    | .ok bytes =>
      match Octets.ofList? bytes with
      | some key => .ok (some key)
      | none => .error (.publicKeyLength bytes.length)

/-- Refuses settings that nothing could run with; of several faults the first decides. -/
def validate (s : Settings) : Except InvalidSettings Unit :=
  match s.publicKey with
  | .error e => .error e
  | .ok _ =>
    if s.radv.enable ∧ s.radv.interface = "" then .error .advertiserWithoutInterface
    else if s.radv.minIntervalSecs > s.radv.maxIntervalSecs then
      .error (.emptyInterval s.radv.minIntervalSecs s.radv.maxIntervalSecs)
    else if s.autopeering.pollIntervalSecs = 0 then .error .zeroPollInterval
    else .ok ()

end Settings

end MeshNode
