import MeshNode.Proofs.Ndp.Grammar
import MeshNode.Proofs.Octets

/-!
# The grammar leaves nothing out

Every string of octets is a message or has a first defect, level by level:

* **blocks** — `Block.Fits.exists_spells`, `Block.Spells.fits`: the numbers of
  a block decide whether it spells an option; `Block.spells_or_defect`: one
  that does not has a defect;
* **rows** — `front_cases` says how a row can begin, `row_spells_or_defect`
  follows the chain to its end;
* **messages** — `spells_or_defect` and `wellFormed_iff` add the headers.

A reader is right about every string once it is right about the two halves.
-/

namespace MeshNode.Ndp

theorem exists_cons_cons {bytes : List UInt8} (h : 2 ≤ bytes.length) :
    ∃ a b rest, bytes = a :: b :: rest := by
  match bytes, h with
  | a :: b :: rest, _ => exact ⟨a, b, rest, rfl⟩

/-! ## Blocks -/

namespace Block

variable {b : Block} {o : MessageOption}

theorem toNat_units_pos (b : Block) : 0 < b.units.toNat := by
  rw [Nat.pos_iff_ne_zero]
  intro hzero
  exact b.units_ne_zero (UInt8.toNat_inj.mp hzero)

/-- The length of a block fixes its units. -/
theorem units_eq {n : Nat} (hn : n < 256) (h : b.body.length + 2 = 8 * n) :
    b.units = UInt8.ofNat n := by
  have hlen := b.length_body
  apply UInt8.toNat_inj.mp
  rw [UInt8.toNat_ofNat', Nat.mod_eq_of_lt hn]
  omega

theorem exists_spells_linkLayer (hkind : b.kind = kindSource ∨ b.kind = kindTarget)
    (hunits : b.units = 1) : ∃ o, b.Spells o := by
  have hlen := b.length_body
  rw [hunits] at hlen
  obtain ⟨address, hbody⟩ := Octets.exists_toList (show b.body.length = 6 by simpa using hlen)
  rcases hkind with hkind | hkind
  · exact ⟨.linkLayer true address, .linkLayer hkind hbody⟩
  · exact ⟨.linkLayer false address, .linkLayer hkind hbody⟩

theorem exists_spells_network (hkind : b.kind = kindNetwork) (hunits : b.units = 4)
    (hlength : b.networkLength ≤ 128) : ∃ o, b.Spells o := by
  have hlen := b.length_body
  rw [hunits, show 8 * (4 : UInt8).toNat = 32 from rfl] at hlen
  obtain ⟨length, flags, rest, hbody⟩ := exists_cons_cons (show 2 ≤ b.body.length by omega)
  rw [networkLength, hbody] at hlength
  rw [hbody, List.length_cons, List.length_cons] at hlen
  obtain ⟨valid, rest, rfl⟩ := Octets.exists_append (show 4 ≤ rest.length by omega)
  rw [List.length_append, valid.length_toList] at hlen
  obtain ⟨preferred, rest, rfl⟩ := Octets.exists_append (show 4 ≤ rest.length by omega)
  rw [List.length_append, preferred.length_toList] at hlen
  obtain ⟨reserved, rest, rfl⟩ := Octets.exists_append (show 4 ≤ rest.length by omega)
  rw [List.length_append, reserved.length_toList] at hlen
  obtain ⟨address, rfl⟩ := Octets.exists_toList (show rest.length = 16 by omega)
  have hlayout : b.body = [length, flags] ++ valid.toList ++ preferred.toList ++
      reserved.toList ++ address.toList := by
    rw [hbody]
    simp
  exact ⟨_, .network hkind hlength hlayout⟩

theorem exists_spells_route (hkind : b.kind = kindRoute) (hunits : b.units ≤ 3)
    (hlength : b.networkLength ≤ 128) (hneeded : routeUnits b.networkLength ≤ b.units.toNat) :
    ∃ o, b.Spells o := by
  have hlen := b.length_body
  have hpos : 0 < b.units.toNat := b.toNat_units_pos
  obtain ⟨length, flags, rest, hbody⟩ := exists_cons_cons (show 2 ≤ b.body.length by omega)
  rw [networkLength, hbody] at hlength hneeded
  rw [hbody, List.length_cons, List.length_cons] at hlen
  obtain ⟨lifetime, front, rfl⟩ := Octets.exists_append (show 4 ≤ rest.length by omega)
  have hlayout : b.body = [length, flags] ++ lifetime.toList ++ front := by
    rw [hbody]
    simp
  exact ⟨_, .route hkind hunits hlength hneeded hlayout⟩

theorem exists_spells_dns (hkind : b.kind = kindDns) (hodd : b.units.toNat % 2 = 1)
    (hmin : 3 ≤ b.units.toNat) : ∃ o, b.Spells o := by
  have hlen := b.length_body
  obtain ⟨reserved, rest, hbody⟩ := Octets.exists_append (show 2 ≤ b.body.length by omega)
  rw [hbody, List.length_append, reserved.length_toList] at hlen
  obtain ⟨lifetime, rest, rfl⟩ := Octets.exists_append (show 4 ≤ rest.length by omega)
  rw [List.length_append, lifetime.length_toList] at hlen
  obtain ⟨servers, hcount, rfl⟩ :=
    Octets.exists_flatMap (show rest.length = 16 * (b.units.toNat / 2) by omega)
  have hne : servers ≠ [] := by
    intro hnil
    rw [hnil, List.length_nil] at hcount
    omega
  rw [← List.append_assoc] at hbody
  exact ⟨_, .dnsServers hkind hne hbody⟩

/-- Numbers that fit are enough: every layout has room for what it holds. -/
theorem Fits.exists_spells (h : b.Fits) : ∃ o, b.Spells o := by
  by_cases hlink : b.kind = kindSource ∨ b.kind = kindTarget
  · exact exists_spells_linkLayer hlink (h.linkLayer hlink)
  by_cases hnetwork : b.kind = kindNetwork
  · obtain ⟨hunits, hlength⟩ := h.network hnetwork
    exact exists_spells_network hnetwork hunits hlength
  by_cases hroute : b.kind = kindRoute
  · obtain ⟨hunits, hlength, hneeded⟩ := h.route hroute
    exact exists_spells_route hroute hunits hlength hneeded
  by_cases hdns : b.kind = kindDns
  · obtain ⟨hodd, hmin⟩ := h.dns hdns
    exact exists_spells_dns hdns hodd hmin
  exact ⟨_, .unknown (not_mem_knownKinds.mpr ⟨hlink, hnetwork, hroute, hdns⟩)⟩

/-- A kind belongs to one group only. -/
theorem Spells.fits (h : b.Spells o) : b.Fits := by
  have hlen := b.length_body
  cases h with
  | @linkLayer source address hkind hbody =>
    have hunits : b.units = 1 := units_eq (n := 1) (by omega) (by rw [hbody, address.length_toList])
    have hlink := isLinkLayer_of_eq_ite hkind
    constructor
    case linkLayer =>
      intro _
      exact hunits
    all_goals
      intro hother
      rw [hother] at hlink
      exact absurd hlink (by decide)
  | network hkind hlength hbody =>
    have hunits : b.units = 4 :=
      units_eq (n := 4) (by omega) (by simp [hbody, Octets.length_toList])
    constructor
    case network =>
      intro _
      rw [networkLength, hbody]
      exact ⟨hunits, hlength⟩
    all_goals
      rw [hkind]
      intro hother
      exact absurd hother (by decide)
  | route hkind hunits hlength hneeded hbody =>
    constructor
    case route =>
      intro _
      rw [networkLength, hbody]
      exact ⟨hunits, hlength, hneeded⟩
    all_goals
      rw [hkind]
      intro hother
      exact absurd hother (by decide)
  | @dnsServers reserved lifetime servers hkind hne hbody =>
    have hcount : 0 < servers.length := List.length_pos_iff.mpr hne
    have hsize : 2 + 4 + 16 * servers.length + 2 = 8 * b.units.toNat := by
      rw [← hlen, hbody, List.length_append, List.length_append, Octets.length_flatMap,
        reserved.length_toList, lifetime.length_toList]
    constructor
    case dns =>
      intro _
      omega
    all_goals
      rw [hkind]
      intro hother
      exact absurd hother (by decide)
  | unknown hforeign =>
    obtain ⟨hlink, hnetwork, hroute, hdns⟩ := not_mem_knownKinds.mp hforeign
    exact ⟨fun hk => absurd hk hlink, fun hk => absurd hk hnetwork, fun hk => absurd hk hroute,
      fun hk => absurd hk hdns⟩

/-- A block that does not fit fails one of the checks of its kind, and the
first of them is its defect. -/
theorem exists_defect_of_not_fits (h : ¬ b.Fits) : ∃ e, b.Defect e := by
  by_contra hnone
  -- without a defect every check passes, one kind after the other
  refine h ⟨?_, ?_, ?_, ?_⟩
  · intro hkind
    by_contra hunits
    exact hnone ⟨_, .linkLayer hkind hunits⟩
  · intro hkind
    have hunits : b.units = 4 := by
      by_contra hunits
      exact hnone ⟨_, .networkUnits hkind hunits⟩
    refine ⟨hunits, ?_⟩
    by_contra hlong
    exact hnone ⟨_, .networkLength hkind hunits (UInt8.not_le.mp hlong)⟩
  · intro hkind
    have hunits : b.units ≤ 3 := by
      by_contra hlong
      exact hnone ⟨_, .routeLong hkind (UInt8.not_le.mp hlong)⟩
    have hlength : b.networkLength ≤ 128 := by
      by_contra hlong
      exact hnone ⟨_, .routeLength hkind hunits (UInt8.not_le.mp hlong)⟩
    refine ⟨hunits, hlength, ?_⟩
    by_contra hshort
    exact hnone ⟨_, .routeShort hkind hunits hlength (Nat.lt_of_not_le hshort)⟩
  · intro hkind
    by_contra hbad
    exact hnone ⟨_, .dns hkind (by omega)⟩

theorem spells_or_defect (b : Block) : (∃ o, b.Spells o) ∨ ∃ e, b.Defect e := by
  by_cases h : b.Fits
  · exact .inl h.exists_spells
  · exact .inr (exists_defect_of_not_fits h)

end Block

/-! ## Rows -/

/-- A row that is long enough begins with a block, which ends where its length says. -/
theorem exists_block_append (kind : UInt8) {units : UInt8} {rest : List UInt8} (hzero : units ≠ 0)
    (hlong : 8 * units.toNat ≤ rest.length + 2) :
    ∃ (b : Block) (tail : List UInt8), b.kind = kind ∧ b.units = units ∧
      kind :: units :: rest = b.toList ++ tail := by
  have hpos : 0 < units.toNat := by
    rw [Nat.pos_iff_ne_zero]
    exact fun h => hzero (UInt8.toNat_inj.mp h)
  have hbody : (rest.take (8 * units.toNat - 2)).length + 2 = 8 * units.toNat := by
    rw [List.length_take]
    omega
  refine ⟨⟨kind, units, rest.take (8 * units.toNat - 2), hzero, hbody⟩,
    rest.drop (8 * units.toNat - 2), rfl, rfl, ?_⟩
  show kind :: units :: rest = kind :: units :: (rest.take _ ++ rest.drop _)
  rw [List.take_append_drop]

/-- A row of options is empty, wrong at its front, or begins with a block that
spells an option. -/
theorem front_cases (bytes : List UInt8) :
    bytes = [] ∨ (∃ e, FrontDefect bytes e) ∨
      ∃ (b : Block) (o : MessageOption) (rest : List UInt8),
        b.Spells o ∧ bytes = b.toList ++ rest := by
  match bytes with
  | [] => exact .inl rfl
  | [last] => exact .inr (.inl ⟨_, .stray last⟩)
  | kind :: units :: rest =>
    by_cases hzero : units = 0
    · subst hzero
      exact .inr (.inl ⟨_, .zeroLength kind rest⟩)
    by_cases hshort : rest.length + 2 < 8 * units.toNat
    · exact .inr (.inl ⟨_, .overrun hzero hshort⟩)
    obtain ⟨b, tail, -, -, hsplit⟩ := exists_block_append kind hzero (Nat.le_of_not_lt hshort)
    rcases b.spells_or_defect with ⟨o, hspells⟩ | ⟨e, hdefect⟩
    · exact .inr (.inr ⟨b, o, _, hspells, hsplit⟩)
    · rw [hsplit]
      exact .inr (.inl ⟨e, .block hdefect⟩)

theorem RowSpells.nil : RowSpells [] [] := ⟨[], rfl, .nil⟩

theorem RowSpells.cons {b : Block} {o : MessageOption} {rest : List UInt8}
    {options : List MessageOption} (hb : b.Spells o) (hrest : RowSpells rest options) :
    RowSpells (b.toList ++ rest) (o :: options) := by
  obtain ⟨blocks, rfl, hblocks⟩ := hrest
  exact ⟨b :: blocks, rfl, .cons hb hblocks⟩

theorem FrontDefect.row {bytes : List UInt8} {e : WireError} (h : FrontDefect bytes e) :
    RowDefect bytes e :=
  ⟨[], bytes, by simp, rfl, h⟩

theorem RowDefect.cons {b : Block} {rest : List UInt8} {e : WireError} (hb : b.Fits)
    (hrest : RowDefect rest e) : RowDefect (b.toList ++ rest) e := by
  obtain ⟨blocks, last, hfits, rfl, hfront⟩ := hrest
  refine ⟨b :: blocks, last, ?_, by simp, hfront⟩
  intro c hc
  rcases List.mem_cons.mp hc with rfl | hc
  · exact hb
  · exact hfits c hc

/-- A row spells options or has a first defect. The chain ends because every
block takes octets off it. -/
theorem row_spells_or_defect (bytes : List UInt8) :
    (∃ options, RowSpells bytes options) ∨ ∃ e, RowDefect bytes e := by
  induction hn : bytes.length using Nat.strongRecOn generalizing bytes with
  | ind n ih =>
    rcases front_cases bytes with rfl | ⟨e, hfront⟩ | ⟨b, o, rest, hspells, rfl⟩
    · exact .inl ⟨[], .nil⟩
    · exact .inr ⟨e, hfront.row⟩
    · have hpos := b.toNat_units_pos
      rw [List.length_append, b.length_toList] at hn
      rcases ih rest.length (by omega) rest rfl with ⟨options, hrest⟩ | ⟨e, hrest⟩
      · exact .inl ⟨o :: options, .cons hspells hrest⟩
      · exact .inr ⟨e, .cons hspells.fits hrest⟩

/-- Blocks that fit spell options, one each. -/
theorem exists_forall₂_spells {blocks : List Block} (h : ∀ b ∈ blocks, b.Fits) :
    ∃ options, List.Forall₂ Block.Spells blocks options := by
  induction blocks with
  | nil => exact ⟨[], .nil⟩
  | cons b blocks ih =>
    obtain ⟨o, ho⟩ := (h b List.mem_cons_self).exists_spells
    obtain ⟨options, hoptions⟩ := ih fun c hc => h c (List.mem_cons_of_mem _ hc)
    exact ⟨o :: options, .cons ho hoptions⟩

theorem fits_of_forall₂_spells {blocks : List Block} {options : List MessageOption}
    (h : List.Forall₂ Block.Spells blocks options) : ∀ b ∈ blocks, b.Fits := by
  induction h with
  | nil => simp
  | cons hb _ ih =>
    intro c hc
    rcases List.mem_cons.mp hc with rfl | hc
    · exact hb.fits
    · exact ih c hc

theorem RowSpells.spelled {bytes : List UInt8} {options : List MessageOption}
    (h : RowSpells bytes options) : ∀ o ∈ options, ∃ b : Block, b.Spells o := by
  obtain ⟨blocks, rfl, hblocks⟩ := h
  induction hblocks with
  | nil => simp
  | cons hb _ ih =>
    intro o ho
    rcases List.mem_cons.mp ho with rfl | ho
    · exact ⟨_, hb⟩
    · exact ih o ho

/-! ## Messages -/

theorem headerLength_solicitation : headerLength typeSolicitation = 8 := rfl

theorem headerLength_advertisement : headerLength typeAdvertisement = 16 := rfl

theorem length_solicitationHeader (checksum : Octets 2) (reserved : Octets 4) :
    (solicitationHeader checksum reserved).length = 8 := by
  simp [solicitationHeader, Octets.length_toList]

theorem length_advertisementHeader (checksum : Octets 2) (hopLimit flags : UInt8)
    (lifetime : Octets 2) (reachable retransmit : Octets 4) :
    (advertisementHeader checksum hopLimit flags lifetime reachable retransmit).length = 16 := by
  simp [advertisementHeader, Octets.length_toList]

theorem exists_solicitationHeader {bytes : List UInt8} (htype : octet bytes 0 = typeSolicitation)
    (hcode : octet bytes 1 = 0) (hlen : 8 ≤ bytes.length) :
    ∃ checksum reserved rest, bytes = solicitationHeader checksum reserved ++ rest := by
  obtain ⟨icmpType, code, rest, rfl⟩ := exists_cons_cons (show 2 ≤ bytes.length by omega)
  obtain rfl : icmpType = typeSolicitation := htype
  obtain rfl : code = 0 := hcode
  rw [List.length_cons, List.length_cons] at hlen
  obtain ⟨checksum, rest, rfl⟩ := Octets.exists_append (show 2 ≤ rest.length by omega)
  rw [List.length_append, checksum.length_toList] at hlen
  obtain ⟨reserved, rest, rfl⟩ := Octets.exists_append (show 4 ≤ rest.length by omega)
  exact ⟨checksum, reserved, rest, by simp [solicitationHeader]⟩

theorem exists_advertisementHeader {bytes : List UInt8}
    (htype : octet bytes 0 = typeAdvertisement) (hcode : octet bytes 1 = 0)
    (hlen : 16 ≤ bytes.length) :
    ∃ checksum hopLimit flags lifetime reachable retransmit rest,
      bytes =
        advertisementHeader checksum hopLimit flags lifetime reachable retransmit ++ rest := by
  obtain ⟨icmpType, code, rest, rfl⟩ := exists_cons_cons (show 2 ≤ bytes.length by omega)
  obtain rfl : icmpType = typeAdvertisement := htype
  obtain rfl : code = 0 := hcode
  rw [List.length_cons, List.length_cons] at hlen
  obtain ⟨checksum, rest, rfl⟩ := Octets.exists_append (show 2 ≤ rest.length by omega)
  rw [List.length_append, checksum.length_toList] at hlen
  obtain ⟨hopLimit, flags, rest, rfl⟩ := exists_cons_cons (show 2 ≤ rest.length by omega)
  rw [List.length_cons, List.length_cons] at hlen
  obtain ⟨lifetime, rest, rfl⟩ := Octets.exists_append (show 2 ≤ rest.length by omega)
  rw [List.length_append, lifetime.length_toList] at hlen
  obtain ⟨reachable, rest, rfl⟩ := Octets.exists_append (show 4 ≤ rest.length by omega)
  rw [List.length_append, reachable.length_toList] at hlen
  obtain ⟨retransmit, rest, rfl⟩ := Octets.exists_append (show 4 ≤ rest.length by omega)
  exact ⟨checksum, hopLimit, flags, lifetime, reachable, retransmit, rest,
    by simp [advertisementHeader]⟩

/-- A complete header and a row that spells options make a message. -/
theorem exists_spells_of_row {bytes : List UInt8} {options : List MessageOption}
    (htype : IsRouterType (octet bytes 0)) (hcode : octet bytes 1 = 0)
    (hlen : headerLength (octet bytes 0) ≤ bytes.length)
    (hrow : RowSpells (bytes.drop (headerLength (octet bytes 0))) options) :
    ∃ m, Spells bytes m := by
  rcases htype with htype | htype
  · rw [htype, headerLength_solicitation] at hlen hrow
    obtain ⟨checksum, reserved, rest, rfl⟩ := exists_solicitationHeader htype hcode hlen
    rw [List.drop_left' (length_solicitationHeader ..)] at hrow
    exact ⟨_, .solicitation hrow⟩
  · rw [htype, headerLength_advertisement] at hlen hrow
    obtain ⟨_, _, _, _, _, _, rest, rfl⟩ := exists_advertisementHeader htype hcode hlen
    rw [List.drop_left' (length_advertisementHeader ..)] at hrow
    exact ⟨_, .advertisement hrow⟩

theorem exists_spells_other {bytes : List UInt8} (hlen : 4 ≤ bytes.length)
    (htype : ¬ IsRouterType (octet bytes 0)) : ∃ m, Spells bytes m := by
  obtain ⟨icmpType, code, rest, rfl⟩ := exists_cons_cons (show 2 ≤ bytes.length by omega)
  rw [List.length_cons, List.length_cons] at hlen
  refine ⟨_, .other htype ?_⟩
  rw [List.length_cons]
  omega

/-- Every string of octets is a message or has a first defect. -/
theorem spells_or_defect (bytes : List UInt8) :
    (∃ m, Spells bytes m) ∨ ∃ e, MessageDefect bytes e := by
  by_cases hshort : bytes.length < 4
  · exact .inr ⟨_, .short hshort⟩
  have hlen : 4 ≤ bytes.length := by omega
  by_cases htype : IsRouterType (octet bytes 0)
  · by_cases hcode : octet bytes 1 = 0
    · by_cases hheader : bytes.length < headerLength (octet bytes 0)
      · exact .inr ⟨_, .header hlen htype hcode hheader⟩
      · have hfull := Nat.le_of_not_lt hheader
        rcases row_spells_or_defect (bytes.drop (headerLength (octet bytes 0))) with
          ⟨options, hrow⟩ | ⟨e, hrow⟩
        · exact .inl (exists_spells_of_row htype hcode hfull hrow)
        · exact .inr ⟨e, .option htype hcode hfull hrow⟩
    · exact .inr ⟨_, .code hlen htype hcode⟩
  · exact .inl (exists_spells_other hlen htype)

theorem Spells.wellFormed {bytes : List UInt8} {m : Message} (h : Spells bytes m) :
    WellFormed bytes := by
  cases h with
  | @solicitation checksum reserved rest options hrow =>
    obtain ⟨blocks, rfl, hblocks⟩ := hrow
    have hheader := length_solicitationHeader checksum reserved
    refine ⟨?_, .inr ⟨rfl, ?_, blocks, ?_, fits_of_forall₂_spells hblocks⟩⟩
    · rw [List.length_append, hheader]
      omega
    · exact le_length_append hheader _
    · exact List.drop_left' hheader
  | @advertisement checksum lifetime hopLimit flags reachable retransmit rest options hrow =>
    obtain ⟨blocks, rfl, hblocks⟩ := hrow
    have hheader :=
      length_advertisementHeader checksum hopLimit flags lifetime reachable retransmit
    refine ⟨?_, .inr ⟨rfl, ?_, blocks, ?_, fits_of_forall₂_spells hblocks⟩⟩
    · rw [List.length_append, hheader]
      omega
    · exact le_length_append hheader _
    · exact List.drop_left' hheader
  | other htype hlen => exact ⟨Nat.succ_le_succ hlen, .inl htype⟩

theorem wellFormed_iff {bytes : List UInt8} : WellFormed bytes ↔ ∃ m, Spells bytes m := by
  constructor
  · rintro ⟨hlen, htype | ⟨hcode, hfull, blocks, hdrop, hfits⟩⟩
    · exact exists_spells_other hlen htype
    · by_cases htype : IsRouterType (octet bytes 0)
      · obtain ⟨options, hoptions⟩ := exists_forall₂_spells hfits
        exact exists_spells_of_row htype hcode hfull ⟨blocks, hdrop, hoptions⟩
      · exact exists_spells_other hlen htype
  · rintro ⟨m, h⟩
    exact h.wellFormed

end MeshNode.Ndp
