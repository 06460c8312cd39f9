import MeshNode.Proofs.Ndp.Writing
import MeshNode.Proofs.Records

/-!
# What the writer refuses

A Router Advertisement is written unless an option is beyond a limit of its kind, and then the
first such option decides the error. What is written is framed: every option says its own length.

* **options** — `MessageOption.Encodable` has the limits, `MessageOption.Refusal` the errors;
  `MessageOption.exists_encode_iff_encodable` and `MessageOption.encode_eq_error_iff`: the writer
  keeps to both;
* **rows** — `encodeOptions_eq_error_iff` finds the first option beyond a limit,
  `exists_blocks_of_encode` the frames of a row that is written;
* **lengths in words** — `MessageOption.encodeIn` counts lengths in words that wrap, as a machine
  does; `MessageOption.encodeIn_eq`: an option that fits into memory does not show it;
* **all of it** — `encode_refuses_first`.
-/

namespace MeshNode.Ndp

/-! ## Options -/

/-- An option within the limits of its kind. -/
def MessageOption.Encodable : MessageOption → Prop
  | .network _ length _ _ _ _ => length ≤ 128
  | .route _ length _ _ => length ≤ 128
  | .linkLayer _ _ => True
  | .dnsServers _ servers => servers.length ≤ 127
  | .unknown _ body => ∃ k, 1 ≤ k ∧ k ≤ 255 ∧ body.length = 8 * k - 2

/-- The error of an option that is beyond a limit of its kind. -/
inductive MessageOption.Refusal : MessageOption → WireError → Prop
  | network {address : Ipv6} {length : UInt8} {onLink autonomous : Bool}
      {valid preferred : Duration} : 128 < length →
      Refusal (.network address length onLink autonomous valid preferred)
        (.badPrefixLength length)
  | route {address : Ipv6} {length : UInt8} {preference : Preference} {lifetime : Duration} :
      128 < length → Refusal (.route address length preference lifetime) (.badPrefixLength length)
  | dnsServers {lifetime : Duration} {servers : List Ipv6} : 127 < servers.length →
      Refusal (.dnsServers lifetime servers) (.badOptionLength 25 255)
  | unknown {kind units : UInt8} {body : List UInt8} :
      (¬ ∃ k, 1 ≤ k ∧ k ≤ 255 ∧ body.length = 8 * k - 2) →
      units.toNat = (body.length + 2) / 8 % 256 →
      Refusal (.unknown kind body) (.badOptionLength kind units)

namespace MessageOption

variable {o : MessageOption} {e : WireError}

/-- The limits of a body, as the writer checks them. -/
theorem whole_units_iff {n : Nat} :
    (n + 2) % 8 = 0 ∧ (n + 2) / 8 ≤ 255 ↔ ∃ k, 1 ≤ k ∧ k ≤ 255 ∧ n = 8 * k - 2 := by
  constructor
  · rintro ⟨hwhole, hsmall⟩
    exact ⟨(n + 2) / 8, by omega, hsmall, by omega⟩
  · rintro ⟨k, hpos, hsmall, rfl⟩
    omega

theorem Encodable.exists_encode (h : o.Encodable) : ∃ bytes, o.encode = .ok bytes := by
  cases o with
  | network => exact ⟨_, encode_network h⟩
  | route => exact ⟨_, encode_route h⟩
  | linkLayer => exact ⟨_, encode_linkLayer⟩
  | dnsServers => exact ⟨_, encode_dns h⟩
  | unknown =>
    obtain ⟨hwhole, hsmall⟩ := whole_units_iff.mpr h
    exact ⟨_, encode_unknown hwhole hsmall⟩

theorem Refusal.encode (h : o.Refusal e) : o.encode = .error e := by
  cases h with
  | network hlong => rw [MessageOption.encode, if_pos hlong]
  | route hlong => rw [MessageOption.encode, routeOctets?_of_gt hlong]
  | @dnsServers _ servers hmany =>
    have hbad : 1 + 2 * servers.length > 255 := by omega
    rw [MessageOption.encode]
    simp only [if_pos hbad]
    rfl
  | @unknown _ units body hbody hunits =>
    rw [← whole_units_iff] at hbody
    have hbad : (body.length + 2) % 8 ≠ 0 ∨ (body.length + 2) / 8 > 255 := by omega
    have hlow : UInt8.ofNat ((body.length + 2) / 8) = units := by
      apply UInt8.toNat_inj.mp
      rw [UInt8.toNat_ofNat', hunits]
    rw [MessageOption.encode]
    simp only [if_pos hbad, hlow]

/-- An option is within its limits, or there is an error for it. -/
theorem encodable_or_refusal (o : MessageOption) : o.Encodable ∨ ∃ e, o.Refusal e := by
  cases o with
  | network address length =>
    rcases Nat.lt_or_ge 128 length.toNat with hlong | hshort
    · exact .inr ⟨_, .network (UInt8.lt_iff_toNat_lt.mpr hlong)⟩
    · exact .inl (UInt8.le_iff_toNat_le.mpr hshort)
  | route address length =>
    rcases Nat.lt_or_ge 128 length.toNat with hlong | hshort
    · exact .inr ⟨_, .route (UInt8.lt_iff_toNat_lt.mpr hlong)⟩
    · exact .inl (UInt8.le_iff_toNat_le.mpr hshort)
  | linkLayer => exact .inl trivial
  | dnsServers lifetime servers =>
    rcases Nat.lt_or_ge 127 servers.length with hmany | hfew
    · exact .inr ⟨_, .dnsServers hmany⟩
    · exact .inl hfew
  | unknown kind body =>
    by_cases hbody : ∃ k, 1 ≤ k ∧ k ≤ 255 ∧ body.length = 8 * k - 2
    · exact .inl hbody
    · exact .inr ⟨_, .unknown hbody UInt8.toNat_ofNat'⟩

theorem exists_encode_iff_encodable : (∃ bytes, o.encode = .ok bytes) ↔ o.Encodable := by
  refine ⟨?_, Encodable.exists_encode⟩
  rintro ⟨bytes, hbytes⟩
  rcases o.encodable_or_refusal with h | ⟨e, h⟩
  · exact h
  · rw [h.encode] at hbytes
    cases hbytes

theorem encode_eq_error_iff : o.encode = .error e ↔ o.Refusal e :=
  eq_error_iff_of_cases (o.encodable_or_refusal.imp_left Encodable.exists_encode) id Refusal.encode

end MessageOption

/-! ## Rows -/

variable {options : List MessageOption} {bytes : List UInt8} {e : WireError}

theorem encodeOptions_cons_eq_error {o : MessageOption} :
    encodeOptions (o :: options) = .error e ↔
      o.encode = .error e ∨
        (∃ front, o.encode = .ok front) ∧ encodeOptions options = .error e := by
  rw [encodeOptions]
  cases hfront : o.encode with
  | error e' => simp [bind, Except.bind]
  | ok front =>
    cases hrest : encodeOptions options with
    | error e' => simp [bind, Except.bind]
    | ok rest => simp [bind, Except.bind, pure, Except.pure]

/-- The error of a row is the one of its first option that is beyond a limit. -/
theorem encodeOptions_eq_error_iff :
    encodeOptions options = .error e ↔
      ∃ before o after, options = before ++ o :: after ∧ (∀ p ∈ before, p.Encodable) ∧
        o.Refusal e := by
  induction options with
  | nil =>
    constructor
    · intro h
      cases h
    · rintro ⟨before, o, after, hsplit, -⟩
      exact absurd hsplit.symm (List.append_ne_nil_of_right_ne_nil before (List.cons_ne_nil o after))
  | cons q options ih =>
    rw [encodeOptions_cons_eq_error, MessageOption.encode_eq_error_iff,
      MessageOption.exists_encode_iff_encodable, ih]
    constructor
    · rintro (hrefusal | ⟨hq, before, o, after, rfl, hbefore, hrefusal⟩)
      · exact ⟨[], q, options, rfl, by simp, hrefusal⟩
      · exact ⟨q :: before, o, after, rfl, List.forall_mem_cons.mpr ⟨hq, hbefore⟩, hrefusal⟩
    · rintro ⟨before, o, after, hsplit, hbefore, hrefusal⟩
      cases before with
      | nil =>
        cases hsplit
        exact .inl hrefusal
      | cons p before =>
        cases hsplit
        obtain ⟨hp, hbefore⟩ := List.forall_mem_cons.mp hbefore
        exact .inr ⟨hp, before, o, after, rfl, hbefore, hrefusal⟩

/-- A row that is written is a chain of blocks, one for each option. -/
theorem exists_blocks_of_encode (h : encodeOptions options = .ok bytes) :
    ∃ blocks : List Block, bytes = blocks.flatMap Block.toList ∧
      List.Forall₂ (fun o b => o.encode = .ok b.toList) options blocks := by
  induction options generalizing bytes with
  | nil =>
    cases h
    exact ⟨[], rfl, .nil⟩
  | cons o options ih =>
    obtain ⟨front, rest, hfront, hrest, rfl⟩ := encodeOptions_cons_eq_ok.mp h
    obtain ⟨b, rfl, -, -⟩ := o.exists_block hfront
    obtain ⟨blocks, rfl, hblocks⟩ := ih hrest
    exact ⟨b :: blocks, rfl, .cons hfront hblocks⟩

/-! ## Lengths in words -/

namespace MessageOption

/-- The lists of an option take less than half of the octets that words of `w` bits can count. -/
def Storable (w : Nat) : MessageOption → Prop
  | .dnsServers _ servers => 16 * servers.length < 2 ^ (w - 1)
  | .unknown _ body => body.length < 2 ^ (w - 1)
  | .network .. | .route .. | .linkLayer .. => True

/-- The octets of an option when its lengths are counted in words of `w` bits, which wrap. Only
the doubling of a number of servers is checked; what goes into an octet loses its upper bits. -/
def encodeIn (w : Nat) : MessageOption → Except WireError (List UInt8)
  | .route address length preference lifetime =>
    match routeOctets? length with
    | none => .error (.badPrefixLength length)
    | some n => .ok <|
      [kindRoute, 1 + UInt8.ofNat (BitVec.ofNat w n / 8#w).toNat, length, preference.bits] ++
        secs32 lifetime ++ address.toList.take n
  | .dnsServers lifetime servers =>
    let count := BitVec.ofNat w servers.length
    let units := count * 2#w + 1#w
    if count.umulOverflow 2#w ∨ 255#w < units then .error (.badOptionLength kindDns 255)
    else .ok <|
      [kindDns, UInt8.ofNat units.toNat, 0, 0] ++ secs32 lifetime ++ servers.flatMap (·.toList)
  | .unknown kind body =>
    let total := BitVec.ofNat w body.length + 2#w
    if total % 8#w ≠ 0#w ∨ 255#w < total / 8#w then
      .error (.badOptionLength kind (UInt8.ofNat (total / 8#w).toNat))
    else .ok ([kind, UInt8.ofNat (total / 8#w).toNat] ++ body)
  | .network address length onLink autonomous valid preferred =>
    (MessageOption.network address length onLink autonomous valid preferred).encode
  | .linkLayer source address => (MessageOption.linkLayer source address).encode

variable {w : Nat}

theorem half_word (hw : 16 ≤ w) : 2 * 2 ^ (w - 1) = 2 ^ w ∧ 2 ^ 15 ≤ 2 ^ (w - 1) := by
  refine ⟨?_, Nat.pow_le_pow_right (by decide) (by omega)⟩
  rw [← Nat.pow_succ']
  congr 1
  omega

theorem toNat_word {n : Nat} (h : n < 2 ^ w) : (BitVec.ofNat w n).toNat = n := by
  rw [BitVec.toNat_ofNat, Nat.mod_eq_of_lt h]

theorem encodeIn_route (hw : 16 ≤ w) {address : Ipv6} {length : UInt8} {preference : Preference}
    {lifetime : Duration} :
    (MessageOption.route address length preference lifetime).encodeIn w =
      (MessageOption.route address length preference lifetime).encode := by
  obtain ⟨hdouble, hroom⟩ := half_word hw
  by_cases hlength : length ≤ 128
  · have hkept := keptOctets_le length
    have hunits : (BitVec.ofNat w (keptOctets length) / 8#w).toNat = keptOctets length / 8 := by
      rw [BitVec.toNat_udiv, toNat_word (by omega), toNat_word (by omega)]
    rw [encodeIn, encode, routeOctets?_of_le hlength]
    simp only [hunits, UInt8.ofNat_add]
    rfl
  · rw [encodeIn, encode, routeOctets?_of_gt (UInt8.not_le.mp hlength)]

theorem encodeIn_dns (hw : 16 ≤ w) {lifetime : Duration} {servers : List Ipv6}
    (h : 16 * servers.length < 2 ^ (w - 1)) :
    (MessageOption.dnsServers lifetime servers).encodeIn w =
      (MessageOption.dnsServers lifetime servers).encode := by
  obtain ⟨hdouble, hroom⟩ := half_word hw
  have hcount : (BitVec.ofNat w servers.length).toNat = servers.length := toNat_word (by omega)
  have htwo : (2#w).toNat = 2 := toNat_word (by omega)
  have hchecked : (BitVec.ofNat w servers.length).umulOverflow 2#w = false := by
    rw [BitVec.umulOverflow, hcount, htwo]
    exact decide_eq_false (by omega)
  have hunits : (BitVec.ofNat w servers.length * 2#w + 1#w).toNat = 1 + 2 * servers.length := by
    rw [BitVec.toNat_add, BitVec.toNat_mul, hcount, htwo, toNat_word (by omega),
      Nat.mod_eq_of_lt (show servers.length * 2 < 2 ^ w by omega), Nat.mod_eq_of_lt (by omega)]
    omega
  have hlong : 255#w < BitVec.ofNat w servers.length * 2#w + 1#w ↔
      1 + 2 * servers.length > 255 := by
    rw [BitVec.lt_def, hunits, toNat_word (by omega)]
  simp only [encodeIn, encode, hchecked, Bool.false_eq_true, false_or, hlong, hunits]

theorem encodeIn_unknown (hw : 16 ≤ w) {kind : UInt8} {body : List UInt8}
    (h : body.length < 2 ^ (w - 1)) :
    (MessageOption.unknown kind body).encodeIn w = (MessageOption.unknown kind body).encode := by
  obtain ⟨hdouble, hroom⟩ := half_word hw
  have hbody : (BitVec.ofNat w body.length).toNat = body.length := toNat_word (by omega)
  have htotal : (BitVec.ofNat w body.length + 2#w).toNat = body.length + 2 := by
    rw [BitVec.toNat_add, hbody, toNat_word (by omega), Nat.mod_eq_of_lt (by omega)]
  have hunits : ((BitVec.ofNat w body.length + 2#w) / 8#w).toNat = (body.length + 2) / 8 := by
    rw [BitVec.toNat_udiv, htotal, toNat_word (by omega)]
  have hrest : (BitVec.ofNat w body.length + 2#w) % 8#w ≠ 0#w ↔ (body.length + 2) % 8 ≠ 0 := by
    rw [ne_eq, ← BitVec.toNat_inj, BitVec.toNat_umod, htotal, toNat_word (by omega),
      toNat_word (by omega)]
  have hlong : 255#w < (BitVec.ofNat w body.length + 2#w) / 8#w ↔
      (body.length + 2) / 8 > 255 := by
    rw [BitVec.lt_def, hunits, toNat_word (by omega)]
  simp only [encodeIn, encode, hrest, hlong, hunits]

/-- The length of no option that fits into memory wraps. -/
theorem encodeIn_eq (hw : 16 ≤ w) {o : MessageOption} (h : o.Storable w) :
    o.encodeIn w = o.encode := by
  cases o with
  | network => rfl
  | route => exact encodeIn_route hw
  | linkLayer => rfl
  | dnsServers => exact encodeIn_dns hw h
  | unknown => exact encodeIn_unknown hw h

end MessageOption

/-! ## Advertisements -/

/-- The octets of an option say how many they are: the second one counts them in units of eight
and is not zero. -/
def Framed (part : List UInt8) : Prop :=
  octet part 1 ≠ 0 ∧ 8 * (octet part 1).toNat = part.length

theorem Block.framed (b : Block) : Framed b.toList := ⟨b.units_ne_zero, b.length_toList.symm⟩

variable {ra : RouterAdvertisement}

theorem RouterAdvertisement.encode_eq_error :
    ra.encode = .error e ↔ encodeOptions ra.options = .error e := by
  rw [RouterAdvertisement.encode]
  cases encodeOptions ra.options with
  | error e' => simp [bind, Except.bind]
  | ok row => simp [bind, Except.bind, pure, Except.pure]

/-- The header of an advertisement that is written, and behind it a framed part for each option,
in their order. -/
theorem RouterAdvertisement.exists_parts (h : ra.encode = .ok bytes) :
    ∃ parts : List (List UInt8), bytes = ra.header ++ parts.flatten ∧
      List.Forall₂ (fun o part => o.encode = .ok part ∧ Framed part) ra.options parts := by
  obtain ⟨row, hrow, rfl⟩ := RouterAdvertisement.encode_eq_ok.mp h
  obtain ⟨blocks, rfl, hblocks⟩ := exists_blocks_of_encode hrow
  refine ⟨blocks.map Block.toList, by rw [List.flatMap_def], ?_⟩
  rw [List.forall₂_map_right_iff]
  exact hblocks.imp fun _ b hencode => ⟨hencode, b.framed⟩

/-- Framed parts take whole units of eight octets. -/
theorem dvd_length_flatten {parts : List (List UInt8)}
    (h : List.Forall₂ (fun o part => o.encode = .ok part ∧ Framed part) options parts) :
    8 ∣ parts.flatten.length := by
  induction h with
  | nil => exact Nat.dvd_zero 8
  | cons hpart _ ih =>
    rw [List.flatten_cons, List.length_append, ← hpart.2.2]
    exact Nat.dvd_add (Nat.dvd_mul_right 8 _) ih

/-- **Refusals of the writer.** An advertisement is written exactly when each of its options is
within the limits of its kind; otherwise the error is the one of the first option that is not.
What is written is the header of sixteen octets and one framed part for each option, in their
order, and it takes whole units of eight octets. No length wraps in words of at least sixteen bits
when the options fit into memory. -/
theorem encode_refuses_first (ra : RouterAdvertisement) :
    ((∃ bytes, ra.encode = .ok bytes) ↔ ∀ o ∈ ra.options, o.Encodable) ∧
      (∀ e, ra.encode = .error e ↔
        ∃ before o after, ra.options = before ++ o :: after ∧ (∀ p ∈ before, p.Encodable) ∧
          o.Refusal e) ∧
      (∀ bytes, ra.encode = .ok bytes →
        ra.header.length = 16 ∧ 8 ∣ bytes.length ∧
          ∃ parts : List (List UInt8), bytes = ra.header ++ parts.flatten ∧
            List.Forall₂ (fun o part => o.encode = .ok part ∧ Framed part) ra.options parts) ∧
      ∀ w, 16 ≤ w → ∀ o ∈ ra.options, o.Storable w → o.encodeIn w = o.encode := by
  refine ⟨?_, fun e => ?_, fun bytes hbytes => ?_, fun w hw o _ => MessageOption.encodeIn_eq hw⟩
  · rw [RouterAdvertisement.exists_encode_iff]
    exact forall₂_congr fun o _ => MessageOption.exists_encode_iff_encodable
  · rw [RouterAdvertisement.encode_eq_error, encodeOptions_eq_error_iff]
  · obtain ⟨parts, rfl, hparts⟩ := RouterAdvertisement.exists_parts hbytes
    refine ⟨length_header ra, ?_, parts, rfl, hparts⟩
    rw [List.length_append, length_header]
    exact Nat.dvd_add (by decide) (dvd_length_flatten hparts)

/-- An advertisement with the longest options there are. -/
def brimful : RouterAdvertisement where
  hopLimit := 64
  managed := false
  other := false
  preference := .medium
  routerLifetime := .zero
  reachableTime := .zero
  retransmitTimer := .zero
  options := [.dnsServers .zero (List.replicate 127 (.zero 16)), .unknown 5 (List.replicate 2038 0)]

/-- The same, followed by an option with one server too many and one with half a unit. -/
def overrun : RouterAdvertisement :=
  { brimful with
    options := brimful.options ++
      [.dnsServers .zero (List.replicate 128 (.zero 16)), .unknown 5 [0, 0]] }

/-- The longest options are written, and of two that are too long the first is refused. -/
theorem brimful_written :
    (∃ bytes, brimful.encode = .ok bytes ∧ 8 ∣ bytes.length) ∧
      (∀ o ∈ brimful.options, o.Storable 64 ∧ o.encodeIn 64 = o.encode) ∧
      overrun.encode = .error (.badOptionLength 25 255) := by
  have hencodable : ∀ o ∈ brimful.options, o.Encodable := by
    simp only [brimful, List.forall_mem_cons, List.not_mem_nil, false_implies, implies_true,
      and_true, MessageOption.Encodable, List.length_replicate]
    exact ⟨by decide, 255, by decide⟩
  have hstorable : ∀ o ∈ brimful.options, o.Storable 64 := by
    simp only [brimful, List.forall_mem_cons, List.not_mem_nil, false_implies, implies_true,
      and_true, MessageOption.Storable, List.length_replicate]
    decide
  obtain ⟨hok, -, hlaid, hwords⟩ := encode_refuses_first brimful
  obtain ⟨bytes, hbytes⟩ := hok.mpr hencodable
  refine ⟨⟨bytes, hbytes, (hlaid bytes hbytes).2.1⟩, ?_, ?_⟩
  · exact fun o ho => ⟨hstorable o ho, hwords 64 (by decide) o ho (hstorable o ho)⟩
  · refine ((encode_refuses_first overrun).2.1 _).mpr
      ⟨brimful.options, _, _, rfl, hencodable, .dnsServers ?_⟩
    rw [List.length_replicate]
    decide

end MeshNode.Ndp
