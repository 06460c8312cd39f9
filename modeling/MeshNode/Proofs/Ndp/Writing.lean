import MeshNode.Proofs.Ndp.Precision

/-!
# The writer follows the grammar

Where the octets of an advertisement stand in the grammar, and where the two
part:

* **into the grammar** — `MessageOption.exists_block`: an option that is
  served and of a foreign kind, if it is written, is a block that spells what
  the wire keeps of it; `rowSpells_of_encode` and `spells_of_encode` follow
  the list and add the header;
* **out of the grammar** — `exists_defect_of_encode`: a list of no servers is
  written as a block of one unit, which no reader takes, and
  `rowDefect_of_encode` finds the first of them in a row;
* **back** — `Block.Spells.encode`: whatever a block spells can be written
  again, and in no more octets than the block has.
-/

namespace MeshNode.Ndp

/-! ## Options that can be read back -/

/-- A list of name servers names one. -/
def MessageOption.Served : MessageOption → Prop
  | .dnsServers _ servers => servers ≠ []
  | _ => True

/-- An option without a layout is of a kind without a layout. -/
def MessageOption.Foreign : MessageOption → Prop
  | .unknown kind _ => kind ∉ knownKinds
  | _ => True

instance (o : MessageOption) : Decidable o.Served :=
  match o with
  | .dnsServers _ servers => inferInstanceAs (Decidable (servers ≠ []))
  | .network .. | .route .. | .linkLayer .. | .unknown .. => .isTrue trivial

instance (o : MessageOption) : Decidable o.Foreign :=
  match o with
  | .unknown kind _ => inferInstanceAs (Decidable (kind ∉ knownKinds))
  | .network .. | .route .. | .linkLayer .. | .dnsServers .. => .isTrue trivial

/-- Some block of the grammar says what the wire can hold of the option. -/
def MessageOption.HasForm (o : MessageOption) : Prop := ∃ b : Block, b.Spells o.norm

theorem Block.Spells.served {b : Block} {o : MessageOption} (h : b.Spells o) : o.Served := by
  cases h with
  | dnsServers _ hne _ => exact hne
  | _ => trivial

theorem Block.Spells.foreign {b : Block} {o : MessageOption} (h : b.Spells o) : o.Foreign := by
  cases h with
  | unknown hforeign => exact hforeign
  | _ => trivial

/-! ## Flags -/

theorem testBit_flagBits (first second : Bool) (preference : Preference) :
    (flagBit 0x80 first ||| flagBit 0x40 second ||| preference.bits).toNat.testBit 7 = first ∧
      (flagBit 0x80 first ||| flagBit 0x40 second ||| preference.bits).toNat.testBit 6 = second ∧
      preferenceIn (flagBit 0x80 first ||| flagBit 0x40 second ||| preference.bits) =
        preference := by
  cases first <;> cases second <;> cases preference <;> decide

theorem testBit_flagPair (first second : Bool) :
    (flagBit 0x80 first ||| flagBit 0x40 second).toNat.testBit 7 = first ∧
      (flagBit 0x80 first ||| flagBit 0x40 second).toNat.testBit 6 = second := by
  cases first <;> cases second <;> decide

theorem preferenceIn_bits (preference : Preference) :
    preferenceIn preference.bits = preference := by
  cases preference <;> decide

/-! ## The blocks that are written -/

theorem ofNat_ne_zero {n : Nat} (hpos : 0 < n) (hlt : n < 256) : UInt8.ofNat n ≠ 0 := by
  intro hzero
  have hnat := congrArg UInt8.toNat hzero
  rw [UInt8.toNat_ofNat_of_lt' hlt] at hnat
  simp at hnat
  omega

def networkBlock (address : Ipv6) (length : UInt8) (onLink autonomous : Bool)
    (valid preferred : Duration) : Block where
  kind := kindNetwork
  units := 4
  body := [length, flagBit 0x80 onLink ||| flagBit 0x40 autonomous] ++
    (fieldOf 4 (min valid.secs 0xffffffff)).toList ++
    (fieldOf 4 (min preferred.secs 0xffffffff)).toList ++ (fieldOf 4 0).toList ++ address.toList
  units_ne_zero := by decide
  length_body := by simp [Octets.length_toList]

theorem toNat_ofNat_routeUnits (length : UInt8) :
    (UInt8.ofNat (routeUnits length)).toNat = routeUnits length := by
  have hle := routeUnits_le length
  exact UInt8.toNat_ofNat_of_lt' (show routeUnits length < 256 by omega)

theorem ofNat_routeUnits_ne_zero (length : UInt8) : UInt8.ofNat (routeUnits length) ≠ 0 := by
  have hle := routeUnits_le length
  exact ofNat_ne_zero (routeUnits_pos length) (by omega)

theorem length_routeBody (address : Ipv6) (length : UInt8) (preference : Preference)
    (lifetime : Duration) :
    ([length, preference.bits] ++ (fieldOf 4 (min lifetime.secs 0xffffffff)).toList ++
      address.toList.take (keptOctets length)).length + 2 =
      8 * (UInt8.ofNat (routeUnits length)).toNat := by
  have hpos := routeUnits_pos length
  have hle := routeUnits_le length
  rw [toNat_ofNat_routeUnits]
  simp only [List.length_append, List.length_take, Octets.length_toList, keptOctets,
    List.length_cons, List.length_nil]
  omega

def routeBlock (address : Ipv6) (length : UInt8) (preference : Preference)
    (lifetime : Duration) : Block where
  kind := kindRoute
  units := UInt8.ofNat (routeUnits length)
  body := [length, preference.bits] ++ (fieldOf 4 (min lifetime.secs 0xffffffff)).toList ++
    address.toList.take (keptOctets length)
  units_ne_zero := ofNat_routeUnits_ne_zero length
  length_body := length_routeBody address length preference lifetime

def linkLayerBlock (source : Bool) (address : HwAddr) : Block where
  kind := if source then kindSource else kindTarget
  units := 1
  body := address.toList
  units_ne_zero := by decide
  length_body := by rw [address.length_toList]; rfl

def dnsBlock (lifetime : Duration) (servers : List Ipv6) (h : servers.length ≤ 127) : Block where
  kind := kindDns
  units := UInt8.ofNat (1 + 2 * servers.length)
  body := (fieldOf 2 0).toList ++ (fieldOf 4 (min lifetime.secs 0xffffffff)).toList ++
    servers.flatMap (·.toList)
  units_ne_zero := ofNat_ne_zero (by omega) (by omega)
  length_body := by
    rw [UInt8.toNat_ofNat_of_lt' (show 1 + 2 * servers.length < 256 by omega)]
    simp only [List.length_append, Octets.length_flatMap, Octets.length_toList]
    omega

def unknownBlock (kind : UInt8) (body : List UInt8) (hwhole : (body.length + 2) % 8 = 0)
    (hfits : (body.length + 2) / 8 ≤ 255) : Block where
  kind := kind
  units := UInt8.ofNat ((body.length + 2) / 8)
  body := body
  units_ne_zero := ofNat_ne_zero (by omega) (by omega)
  length_body := by
    rw [UInt8.toNat_ofNat_of_lt' (show (body.length + 2) / 8 < 256 by omega)]
    omega

section Written

variable {address : Ipv6} {length : UInt8} {onLink autonomous : Bool}
  {valid preferred lifetime : Duration} {preference : Preference} {servers : List Ipv6}

theorem encode_network (h : length ≤ 128) :
    (MessageOption.network address length onLink autonomous valid preferred).encode =
      .ok (networkBlock address length onLink autonomous valid preferred).toList := by
  rw [MessageOption.encode, if_neg (UInt8.not_lt.mpr h)]
  simp [networkBlock, Block.toList, fieldOf, secs32, beBytes]

theorem spells_networkBlock (h : length ≤ 128) :
    (networkBlock address length onLink autonomous valid preferred).Spells
      (MessageOption.network address length onLink autonomous valid preferred).norm := by
  have hspells := Block.Spells.network
    (b := networkBlock address length onLink autonomous valid preferred) rfl h rfl
  obtain ⟨hon, hauto⟩ := testBit_flagPair onLink autonomous
  rw [hon, hauto, seconds_fieldOf (by decide), seconds_fieldOf (by decide)] at hspells
  exact hspells

theorem encode_route (h : length ≤ 128) :
    (MessageOption.route address length preference lifetime).encode =
      .ok (routeBlock address length preference lifetime).toList := by
  have hpos := routeUnits_pos length
  have hunits : 1 + keptOctets length / 8 = routeUnits length := by
    rw [keptOctets]
    omega
  rw [MessageOption.encode, routeOctets?_of_le h]
  simp [routeBlock, Block.toList, fieldOf, secs32, hunits]

theorem spells_routeBlock (h : length ≤ 128) :
    (routeBlock address length preference lifetime).Spells
      (MessageOption.route address length preference lifetime).norm := by
  have hle := routeUnits_le length
  have hunits : (routeBlock address length preference lifetime).units.toNat = routeUnits length :=
    toNat_ofNat_routeUnits length
  have hspells := Block.Spells.route (b := routeBlock address length preference lifetime) rfl
    (UInt8.le_iff_toNat_le.mpr (by rw [hunits]; exact hle)) h (by rw [hunits]) rfl
  rw [preferenceIn_bits, seconds_fieldOf (by decide)] at hspells
  exact hspells

theorem encode_linkLayer {source : Bool} {address : HwAddr} :
    (MessageOption.linkLayer source address).encode = .ok (linkLayerBlock source address).toList :=
  rfl

theorem spells_linkLayerBlock {source : Bool} {address : HwAddr} :
    (linkLayerBlock source address).Spells (MessageOption.linkLayer source address).norm :=
  .linkLayer rfl rfl

theorem encode_dns (h : servers.length ≤ 127) :
    (MessageOption.dnsServers lifetime servers).encode =
      .ok (dnsBlock lifetime servers h).toList := by
  have hfits : ¬ 1 + 2 * servers.length > 255 := by omega
  rw [MessageOption.encode]
  simp [hfits, dnsBlock, Block.toList, fieldOf, secs32, beBytes]

theorem spells_dnsBlock (h : servers.length ≤ 127) (hne : servers ≠ []) :
    (dnsBlock lifetime servers h).Spells (MessageOption.dnsServers lifetime servers).norm := by
  have hspells := Block.Spells.dnsServers (b := dnsBlock lifetime servers h) rfl hne rfl
  rw [seconds_fieldOf (by decide)] at hspells
  exact hspells

/-- A list of no servers takes one unit, and two more are asked for. -/
theorem defect_dnsBlock_nil :
    (dnsBlock lifetime [] (by decide)).Defect (.badOptionLength kindDns 1) :=
  .dns rfl (.inl (show 1 < 3 by omega))

theorem encode_unknown {kind : UInt8} {body : List UInt8} (hwhole : (body.length + 2) % 8 = 0)
    (hfits : (body.length + 2) / 8 ≤ 255) :
    (MessageOption.unknown kind body).encode =
      .ok (unknownBlock kind body hwhole hfits).toList := by
  have hgood : ¬ ((body.length + 2) % 8 ≠ 0 ∨ (body.length + 2) / 8 > 255) := by omega
  rw [MessageOption.encode]
  simp only [if_neg hgood]
  rfl

end Written

/-! ## One option -/

/-- An option that is written is a block; whether it can be read back depends
on its kind and its servers alone. -/
theorem MessageOption.exists_block {o : MessageOption} {bytes : List UInt8}
    (h : o.encode = .ok bytes) :
    ∃ b : Block, bytes = b.toList ∧ (o.Foreign → o.Served → b.Spells o.norm) ∧
      (¬ o.Served → b.Defect (.badOptionLength kindDns 1)) := by
  cases o with
  | network address length onLink autonomous valid preferred =>
    by_cases hlength : length ≤ 128
    · rw [encode_network hlength] at h
      cases h
      exact ⟨_, rfl, fun _ _ => spells_networkBlock hlength, fun hs => absurd trivial hs⟩
    · rw [encode, if_pos (UInt8.not_le.mp hlength)] at h
      cases h
  | route address length preference lifetime =>
    by_cases hlength : length ≤ 128
    · rw [encode_route hlength] at h
      cases h
      exact ⟨_, rfl, fun _ _ => spells_routeBlock hlength, fun hs => absurd trivial hs⟩
    · rw [encode, routeOctets?_of_gt (UInt8.not_le.mp hlength)] at h
      cases h
  | linkLayer source address =>
    cases h
    exact ⟨_, rfl, fun _ _ => spells_linkLayerBlock, fun hs => absurd trivial hs⟩
  | dnsServers lifetime servers =>
    by_cases hcount : servers.length ≤ 127
    · rw [encode_dns hcount] at h
      cases h
      refine ⟨_, rfl, fun _ hne => spells_dnsBlock hcount hne, fun hs => ?_⟩
      obtain rfl : servers = [] := not_not.mp hs
      exact defect_dnsBlock_nil
    · rw [encode] at h
      simp only [if_pos (show 1 + 2 * servers.length > 255 by omega)] at h
      cases h
  | unknown kind body =>
    by_cases hgood : (body.length + 2) % 8 = 0 ∧ (body.length + 2) / 8 ≤ 255
    · rw [encode_unknown hgood.1 hgood.2] at h
      cases h
      exact ⟨_, rfl, fun hforeign _ => .unknown hforeign, fun hs => absurd trivial hs⟩
    · rw [encode] at h
      simp only [if_pos (show (body.length + 2) % 8 ≠ 0 ∨ (body.length + 2) / 8 > 255 by omega)]
        at h
      cases h

/-- What a block spells can be written again, in no more units. -/
theorem Block.Spells.exists_encode {b : Block} {o : MessageOption} (h : b.Spells o) :
    ∃ c : Block, o.encode = .ok c.toList ∧ c.units.toNat ≤ b.units.toNat := by
  have hlen := b.length_body
  have hpos := b.toNat_units_pos
  have hbound := b.units.toNat_lt
  have hfits := h.fits
  cases h with
  | linkLayer hkind hbody => exact ⟨_, encode_linkLayer, hpos⟩
  | network hkind hlength hbody =>
    refine ⟨_, encode_network hlength, ?_⟩
    rw [(hfits.network hkind).1]
    rfl
  | @route length flags lifetime front hkind hunits hlength hneeded hbody =>
    refine ⟨_, encode_route hlength, ?_⟩
    show (UInt8.ofNat (routeUnits length)).toNat ≤ _
    rw [toNat_ofNat_routeUnits]
    exact hneeded
  | @dnsServers reserved lifetime servers hkind hne hbody =>
    rw [hbody, List.length_append, List.length_append, Octets.length_flatMap,
      reserved.length_toList, lifetime.length_toList] at hlen
    -- the units of the block fit an octet, so the servers fit the writer
    have hcount : servers.length ≤ 127 := by omega
    refine ⟨_, encode_dns hcount, ?_⟩
    show (UInt8.ofNat (1 + 2 * servers.length)).toNat ≤ _
    rw [UInt8.toNat_ofNat_of_lt' (show 1 + 2 * servers.length < 256 by omega)]
    omega
  | unknown hforeign =>
    have hwhole : (b.body.length + 2) % 8 = 0 := by omega
    have hsmall : (b.body.length + 2) / 8 ≤ 255 := by omega
    refine ⟨_, encode_unknown hwhole hsmall, ?_⟩
    show (UInt8.ofNat ((b.body.length + 2) / 8)).toNat ≤ _
    rw [UInt8.toNat_ofNat_of_lt' (show (b.body.length + 2) / 8 < 256 by omega)]
    omega

theorem MessageOption.HasForm.exists_encode {o : MessageOption} (h : o.HasForm) :
    ∃ bytes, o.encode = .ok bytes := by
  obtain ⟨b, hb⟩ := h
  obtain ⟨c, hc, -⟩ := hb.exists_encode
  exact ⟨c.toList, by rw [← o.encode_norm, hc]⟩

theorem MessageOption.hasForm_of_encode {o : MessageOption} {bytes : List UInt8}
    (hforeign : o.Foreign) (hserved : o.Served) (h : o.encode = .ok bytes) : o.HasForm := by
  obtain ⟨b, -, hspells, -⟩ := o.exists_block h
  exact ⟨b, hspells hforeign hserved⟩

/-- A list of no servers is written, form or not. -/
theorem MessageOption.exists_encode_of_not_served {o : MessageOption} (h : ¬ o.Served) :
    ∃ bytes, o.encode = .ok bytes := by
  cases o with
  | dnsServers lifetime servers =>
    obtain rfl : servers = [] := not_not.mp h
    exact ⟨_, encode_dns (by decide)⟩
  | _ => exact absurd trivial h

/-! ## Rows -/

variable {options : List MessageOption} {bytes : List UInt8}

theorem encodeOptions_cons_eq_ok {o : MessageOption} :
    encodeOptions (o :: options) = .ok bytes ↔
      ∃ front rest, o.encode = .ok front ∧ encodeOptions options = .ok rest ∧
        bytes = front ++ rest := by
  rw [encodeOptions]
  constructor
  · intro h
    cases hfront : o.encode with
    | error e =>
      rw [hfront] at h
      cases h
    | ok front =>
      cases hrest : encodeOptions options with
      | error e =>
        rw [hfront, hrest] at h
        cases h
      | ok rest =>
        rw [hfront, hrest] at h
        cases h
        exact ⟨front, rest, rfl, rfl, rfl⟩
  · rintro ⟨front, rest, hfront, hrest, rfl⟩
    rw [hfront, hrest]
    rfl

/-- A row is written when every option is. -/
theorem exists_encodeOptions_iff :
    (∃ bytes, encodeOptions options = .ok bytes) ↔
      ∀ o ∈ options, ∃ bytes, o.encode = .ok bytes := by
  induction options with
  | nil => exact ⟨fun _ => by simp, fun _ => ⟨[], rfl⟩⟩
  | cons o options ih =>
    constructor
    · rintro ⟨bytes, h⟩ p hp
      obtain ⟨front, rest, hfront, hrest, -⟩ := encodeOptions_cons_eq_ok.mp h
      rcases List.mem_cons.mp hp with rfl | hp
      · exact ⟨front, hfront⟩
      · exact ih.mp ⟨rest, hrest⟩ p hp
    · intro h
      obtain ⟨front, hfront⟩ := h o List.mem_cons_self
      obtain ⟨rest, hrest⟩ := ih.mpr fun p hp => h p (List.mem_cons_of_mem _ hp)
      exact ⟨front ++ rest, encodeOptions_cons_eq_ok.mpr ⟨front, rest, hfront, hrest, rfl⟩⟩

theorem rowSpells_of_encode (hforeign : ∀ o ∈ options, o.Foreign)
    (hserved : ∀ o ∈ options, o.Served) (h : encodeOptions options = .ok bytes) :
    RowSpells bytes (options.map MessageOption.norm) := by
  induction options generalizing bytes with
  | nil =>
    cases h
    exact .nil
  | cons o options ih =>
    obtain ⟨front, rest, hfront, hrest, rfl⟩ := encodeOptions_cons_eq_ok.mp h
    obtain ⟨b, rfl, hspells, -⟩ := o.exists_block hfront
    have hb := hspells (hforeign o List.mem_cons_self) (hserved o List.mem_cons_self)
    have htail := ih (fun p hp => hforeign p (List.mem_cons_of_mem _ hp))
      (fun p hp => hserved p (List.mem_cons_of_mem _ hp)) hrest
    exact .cons hb htail

/-- The first list of no servers is the first defect. -/
theorem rowDefect_of_encode (hforeign : ∀ o ∈ options, o.Foreign)
    (hunserved : ∃ o ∈ options, ¬ o.Served) (h : encodeOptions options = .ok bytes) :
    RowDefect bytes (.badOptionLength kindDns 1) := by
  induction options generalizing bytes with
  | nil =>
    obtain ⟨o, ho, -⟩ := hunserved
    exact absurd ho List.not_mem_nil
  | cons o options ih =>
    obtain ⟨front, rest, hfront, hrest, rfl⟩ := encodeOptions_cons_eq_ok.mp h
    obtain ⟨b, rfl, hspells, hdefect⟩ := o.exists_block hfront
    by_cases hserved : o.Served
    · -- a list that names servers fits, so the defect is further on
      have hb := hspells (hforeign o List.mem_cons_self) hserved
      have htail : ∃ p ∈ options, ¬ p.Served := by
        obtain ⟨p, hp, hpserved⟩ := hunserved
        rcases List.mem_cons.mp hp with rfl | hp
        · exact absurd hserved hpserved
        · exact ⟨p, hp, hpserved⟩
      exact .cons hb.fits (ih (fun p hp => hforeign p (List.mem_cons_of_mem _ hp)) htail hrest)
    · exact (FrontDefect.block (hdefect hserved)).row

theorem RowSpells.exists_encode (h : RowSpells bytes options) :
    ∃ row, encodeOptions options = .ok row ∧ row.length ≤ bytes.length := by
  obtain ⟨blocks, rfl, hblocks⟩ := h
  induction hblocks with
  | nil => exact ⟨[], rfl, Nat.le_refl _⟩
  | @cons b o blocks options hb _ ih =>
    obtain ⟨c, hfront, hunits⟩ := hb.exists_encode
    obtain ⟨rest, hrest, hlen⟩ := ih
    refine ⟨c.toList ++ rest, encodeOptions_cons_eq_ok.mpr ⟨_, _, hfront, hrest, rfl⟩, ?_⟩
    rw [List.flatMap_cons, List.length_append, List.length_append, c.length_toList,
      b.length_toList]
    omega

/-! ## Advertisements -/

section Messages

variable {ra : RouterAdvertisement}

theorem RouterAdvertisement.encode_eq_ok :
    ra.encode = .ok bytes ↔
      ∃ row, encodeOptions ra.options = .ok row ∧ bytes = ra.header ++ row := by
  rw [encode]
  cases hrow : encodeOptions ra.options with
  | error e =>
    constructor
    · intro h
      cases h
    · rintro ⟨row, hrow', -⟩
      cases hrow'
  | ok row =>
    constructor
    · intro h
      cases h
      exact ⟨row, rfl, rfl⟩
    · rintro ⟨row', hrow', rfl⟩
      cases hrow'
      rfl

theorem RouterAdvertisement.exists_encode_iff :
    (∃ bytes, ra.encode = .ok bytes) ↔ ∀ o ∈ ra.options, ∃ bytes, o.encode = .ok bytes := by
  rw [← exists_encodeOptions_iff]
  constructor
  · rintro ⟨bytes, h⟩
    obtain ⟨row, hrow, -⟩ := encode_eq_ok.mp h
    exact ⟨row, hrow⟩
  · rintro ⟨row, hrow⟩
    exact ⟨_, encode_eq_ok.mpr ⟨row, hrow, rfl⟩⟩

theorem RouterAdvertisement.exists_encode_or_error (ra : RouterAdvertisement) :
    (∃ bytes, ra.encode = .ok bytes) ∨ ∃ e, ra.encode = .error e := by
  cases ra.encode with
  | ok bytes => exact .inl ⟨bytes, rfl⟩
  | error e => exact .inr ⟨e, rfl⟩

/-- The flags octet of an advertisement. -/
def RouterAdvertisement.flags (ra : RouterAdvertisement) : UInt8 :=
  flagBit 0x80 ra.managed ||| flagBit 0x40 ra.other ||| ra.preference.bits

theorem header_eq (ra : RouterAdvertisement) :
    ra.header = advertisementHeader (fieldOf 2 0) ra.hopLimit ra.flags
      (fieldOf 2 (min ra.routerLifetime.secs 0xffff))
      (fieldOf 4 (min ra.reachableTime.millis 0xffffffff))
      (fieldOf 4 (min ra.retransmitTimer.millis 0xffffffff)) := by
  simp [RouterAdvertisement.header, advertisementHeader, fieldOf, secs16, millis32, beBytes,
    RouterAdvertisement.flags]

theorem length_header (ra : RouterAdvertisement) : ra.header.length = 16 := by
  rw [header_eq, length_advertisementHeader]

/-- A header in front of a row that spells what is left of the options. -/
theorem spells_header {row : List UInt8}
    (h : RowSpells row (ra.options.map MessageOption.norm)) :
    Spells (ra.header ++ row) (.advertisement ra.norm) := by
  have hspells : Spells (advertisementHeader (fieldOf 2 0) ra.hopLimit ra.flags
      (fieldOf 2 (min ra.routerLifetime.secs 0xffff))
      (fieldOf 4 (min ra.reachableTime.millis 0xffffffff))
      (fieldOf 4 (min ra.retransmitTimer.millis 0xffffffff)) ++ row) _ := .advertisement h
  obtain ⟨hmanaged, hother, hpreference⟩ :=
    testBit_flagBits ra.managed ra.other ra.preference
  rw [RouterAdvertisement.flags, hmanaged, hother, hpreference, seconds_fieldOf (by decide),
    milliseconds_fieldOf (by decide), milliseconds_fieldOf (by decide)] at hspells
  rw [header_eq]
  exact hspells

theorem spells_of_encode (hforeign : ∀ o ∈ ra.options, o.Foreign)
    (hserved : ∀ o ∈ ra.options, o.Served) (h : ra.encode = .ok bytes) :
    Spells bytes (.advertisement ra.norm) := by
  obtain ⟨row, hrow, rfl⟩ := RouterAdvertisement.encode_eq_ok.mp h
  exact spells_header (rowSpells_of_encode hforeign hserved hrow)

theorem defect_of_encode (hforeign : ∀ o ∈ ra.options, o.Foreign)
    (hunserved : ∃ o ∈ ra.options, ¬ o.Served) (h : ra.encode = .ok bytes) :
    MessageDefect bytes (.badOptionLength kindDns 1) := by
  obtain ⟨row, hrow, rfl⟩ := RouterAdvertisement.encode_eq_ok.mp h
  have htype : octet (ra.header ++ row) 0 = typeAdvertisement := rfl
  refine .option (.inr htype) rfl ?_ ?_
  · rw [htype, headerLength_advertisement]
    exact le_length_append (length_header ra) _
  · rw [htype, headerLength_advertisement, List.drop_left' (length_header ra)]
    exact rowDefect_of_encode hforeign hunserved hrow

/-- What was read can be written, in no more octets than it was read from. -/
theorem Spells.exists_encode (h : Spells bytes (.advertisement ra)) :
    ∃ bytes', ra.encode = .ok bytes' ∧ bytes'.length ≤ bytes.length := by
  cases h with
  | @advertisement checksum lifetime hopLimit flags reachable retransmit rest options hrow =>
    obtain ⟨row, hencode, hlen⟩ := hrow.exists_encode
    refine ⟨_, RouterAdvertisement.encode_eq_ok.mpr ⟨row, hencode, rfl⟩, ?_⟩
    rw [List.length_append, List.length_append, length_header, length_advertisementHeader]
    omega

theorem Spells.options_spelled (h : Spells bytes (.advertisement ra)) :
    ∀ o ∈ ra.options, ∃ b : Block, b.Spells o := by
  cases h with
  | advertisement hrow => exact hrow.spelled

end Messages

end MeshNode.Ndp
