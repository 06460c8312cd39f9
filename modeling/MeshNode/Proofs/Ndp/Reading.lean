import Mathlib.Data.Nat.Bitwise
import MeshNode.Proofs.Ndp.Coverage
import MeshNode.Proofs.Records

/-!
# The reader follows the grammar

`decode` and the grammar agree on every string of octets, value by value and
error by error:

* **blocks** — `decodeOption_of_spells` and `decodeOption_of_defect`: the
  checks of a kind are made in the order in which its defects exclude each
  other;
* **rows** — `decodeOptions_block` is one turn of the loop, and the two halves
  follow by induction over the chain of blocks;
* **messages** — `decode_of_spells` and `decode_of_defect`. The grammar leaves
  nothing out, so each half has a converse, and `decode_grammar` is the whole.
-/

namespace MeshNode.Ndp

/-! ## Fields of a layout

A layout is a row of octets and strings of a fixed length. These lemmas walk
along it to the place that is read.
-/

@[simp] theorem octet_cons_zero (a : UInt8) (bytes : List UInt8) : octet (a :: bytes) 0 = a := rfl

@[simp] theorem octet_cons_succ (a : UInt8) (bytes : List UInt8) (i : Nat) :
    octet (a :: bytes) (i + 1) = octet bytes i := rfl

@[simp] theorem octet_append_of_le {n : Nat} (o : Octets n) (rest : List UInt8) {i : Nat}
    (h : n ≤ i) : octet (o.toList ++ rest) i = octet rest (i - n) := by
  have hlen : o.toList.length ≤ i := by rw [o.length_toList]; exact h
  rw [octet, List.getD_append_right _ _ _ _ hlen, o.length_toList, octet]

@[simp] theorem field_cons_succ (a : UInt8) (bytes : List UInt8) (i width : Nat) :
    field (a :: bytes) (i + 1) width = field bytes i width := rfl

@[simp] theorem field_append_zero {n : Nat} (o : Octets n) (rest : List UInt8) :
    field (o.toList ++ rest) 0 n = beValue o.toList := by
  rw [field, List.drop_zero, List.take_left' o.length_toList]

@[simp] theorem field_append_of_le {n : Nat} (o : Octets n) (rest : List UInt8) {i width : Nat}
    (h : n ≤ i) : field (o.toList ++ rest) i width = field rest (i - n) width := by
  rw [field, o.drop_append_of_le rest h, field]

/-! ## What an octet means -/

/-- A mask of one bit tests that bit. -/
theorem hasFlag_eq_testBit {flags mask : UInt8} {i : Nat} (hmask : mask.toNat = 2 ^ i) :
    hasFlag flags mask = flags.toNat.testBit i := by
  have hand : (flags &&& mask).toNat = (flags.toNat.testBit i).toNat * 2 ^ i := by
    rw [UInt8.toNat_and, hmask, Nat.and_two_pow]
  have hpos : 0 < 2 ^ i := Nat.two_pow_pos i
  cases hbit : flags.toNat.testBit i with
  | false =>
    have hzero : flags &&& mask = 0 := by
      apply UInt8.toNat_inj.mp
      rw [hand, hbit]
      simp
    simp [hasFlag, hzero]
  | true =>
    have hne : flags &&& mask ≠ 0 := by
      intro hzero
      rw [hzero, hbit] at hand
      simp at hand
      omega
    simp [hasFlag, hne]

theorem Preference.ofFlags_eq (flags : UInt8) : Preference.ofFlags flags = preferenceIn flags := by
  have hshift : (flags >>> 3).toNat = flags.toNat / 8 := by
    rw [UInt8.toNat_shiftRight, Nat.shiftRight_eq_div_pow]
    rfl
  have hmask : (flags >>> 3 &&& 3).toNat = flags.toNat / 8 % 4 := by
    rw [UInt8.toNat_and, hshift]
    exact Nat.and_two_pow_sub_one_eq_mod _ 2
  -- the two bits are all that is left of the octet, so four cases decide
  have hbits : flags.toNat / 8 % 4 =
      2 * (flags.toNat.testBit 4).toNat + (flags.toNat.testBit 3).toNat := by
    rw [Nat.toNat_testBit, Nat.toNat_testBit]
    omega
  rw [ofFlags, preferenceIn, hmask, hbits]
  cases flags.toNat.testBit 4 <;> cases flags.toNat.testBit 3 <;> rfl

theorem addresses_flatMap (servers : List Ipv6) :
    addresses servers.length (servers.flatMap (·.toList)) = servers := by
  induction servers with
  | nil => rfl
  | cons s servers ih =>
    rw [List.flatMap_cons, List.length_cons, addresses, List.take_left' s.length_toList,
      List.drop_left' s.length_toList, ih, Octets.padded_toList]

/-! ## Blocks -/

namespace Block

theorem octet_toList (b : Block) : octet b.toList 2 = b.networkLength := by
  rw [octet, toList, networkLength]
  cases b.body <;> rfl

theorem drop_toList (b : Block) : b.toList.drop 2 = b.body := rfl

end Block

variable {b : Block} {o : MessageOption} {e : WireError}

theorem decodeOption_linkLayer (hkind : b.kind = kindSource ∨ b.kind = kindTarget)
    (hunits : b.units = 1) {address : HwAddr} (hbody : b.body = address.toList) :
    decodeOption b.kind b.units b.toList = .ok (.linkLayer (b.kind == kindSource) address) := by
  rw [decodeOption, if_pos hkind, if_neg (by simp [hunits]), b.drop_toList, hbody,
    Octets.padded_toList]

theorem decodeOption_network (hkind : b.kind = kindNetwork) (hunits : b.units = 4)
    {length flags : UInt8} (hlength : length ≤ 128) {valid preferred reserved : Octets 4}
    {address : Ipv6}
    (hbody : b.body = [length, flags] ++ valid.toList ++ preferred.toList ++ reserved.toList ++
      address.toList) :
    decodeOption b.kind b.units b.toList =
      .ok (.network address length (flags.toNat.testBit 7) (flags.toNat.testBit 6)
        (seconds valid) (seconds preferred)) := by
  have hlist : b.toList = b.kind :: b.units :: length :: flags ::
      (valid.toList ++ (preferred.toList ++ (reserved.toList ++ address.toList))) := by
    simp [Block.toList, hbody]
  have hlink : ¬ (kindNetwork = kindSource ∨ kindNetwork = kindTarget) := by decide
  have hoctet : octet b.toList 2 = length := by simp [hlist]
  have hflags : octet b.toList 3 = flags := by simp [hlist]
  have hvalid : field b.toList 4 4 = beValue valid.toList := by simp [hlist]
  have hpreferred : field b.toList 8 4 = beValue preferred.toList := by simp [hlist]
  have haddress : b.toList.drop 16 = address.toList := by
    simp [hlist, Octets.drop_append_of_le]
  rw [decodeOption, hkind, if_neg hlink, if_pos rfl, if_neg (by simp [hunits]), hoctet,
    if_neg (UInt8.not_lt.mpr hlength), hflags, hvalid, hpreferred, haddress,
    Octets.padded_toList, hasFlag_eq_testBit (i := 7) rfl, hasFlag_eq_testBit (i := 6) rfl]
  rfl

theorem decodeOption_route (hkind : b.kind = kindRoute) (hunits : b.units ≤ 3)
    {length flags : UInt8} (hlength : length ≤ 128) (hneeded : routeUnits length ≤ b.units.toNat)
    {lifetime : Octets 4} {front : List UInt8}
    (hbody : b.body = [length, flags] ++ lifetime.toList ++ front) :
    decodeOption b.kind b.units b.toList =
      .ok (.route (.padded 16 front) length (preferenceIn flags) (seconds lifetime)) := by
  have hlist : b.toList = b.kind :: b.units :: length :: flags ::
      (lifetime.toList ++ front) := by
    simp [Block.toList, hbody]
  have hlink : ¬ (kindRoute = kindSource ∨ kindRoute = kindTarget) := by decide
  have hnetwork : ¬ kindRoute = kindNetwork := by decide
  have hoctet : octet b.toList 2 = length := by simp [hlist]
  have hflags : octet b.toList 3 = flags := by simp [hlist]
  have hlifetime : field b.toList 4 4 = beValue lifetime.toList := by simp [hlist]
  have hfront : b.toList.drop 8 = front := by simp [hlist, Octets.drop_append_of_le]
  have hpos := routeUnits_pos length
  have henough : ¬ b.units.toNat < 1 + keptOctets length / 8 := by
    rw [keptOctets]
    omega
  rw [decodeOption, hkind, if_neg hlink, if_neg hnetwork, if_pos rfl,
    if_neg (UInt8.not_lt.mpr hunits), hoctet, routeOctets?_of_le hlength]
  show (if _ then _ else _) = _
  rw [if_neg henough, hflags, hlifetime, hfront, Preference.ofFlags_eq]
  rfl

theorem decodeOption_dns (hkind : b.kind = kindDns) (hodd : b.units.toNat % 2 = 1)
    (hmin : 3 ≤ b.units.toNat) {reserved : Octets 2} {lifetime : Octets 4} {servers : List Ipv6}
    (hbody : b.body = reserved.toList ++ lifetime.toList ++ servers.flatMap (·.toList)) :
    decodeOption b.kind b.units b.toList = .ok (.dnsServers (seconds lifetime) servers) := by
  have hlist : b.toList = b.kind :: b.units ::
      (reserved.toList ++ (lifetime.toList ++ servers.flatMap (·.toList))) := by
    simp [Block.toList, hbody]
  have hlink : ¬ (kindDns = kindSource ∨ kindDns = kindTarget) := by decide
  have hcount : servers.length = b.units.toNat / 2 := by
    have hlen := b.length_body
    rw [hbody, List.length_append, List.length_append, Octets.length_flatMap,
      reserved.length_toList, lifetime.length_toList] at hlen
    omega
  have hlifetime : field b.toList 4 4 = beValue lifetime.toList := by simp [hlist]
  have hservers : b.toList.drop 8 = servers.flatMap (·.toList) := by
    simp [hlist, Octets.drop_append_of_le]
  have hbad : ¬ (b.units < 3 ∨ b.units % 2 = 0) := by
    rw [UInt8.lt_iff_toNat_lt, ← UInt8.toNat_inj, UInt8.toNat_mod]
    simp
    omega
  rw [decodeOption, hkind, if_neg hlink, if_neg (by decide), if_neg (by decide), if_pos rfl,
    if_neg hbad, hlifetime, hservers, ← hcount, addresses_flatMap]
  rfl

theorem decodeOption_of_spells (h : b.Spells o) :
    decodeOption b.kind b.units b.toList = .ok o := by
  have hfits := h.fits
  cases h with
  | @linkLayer source address hkind hbody =>
    have hlink := isLinkLayer_of_eq_ite hkind
    rw [decodeOption_linkLayer hlink (hfits.linkLayer hlink) hbody, hkind]
    cases source <;> rfl
  | network hkind hlength hbody =>
    exact decodeOption_network hkind (hfits.network hkind).1 hlength hbody
  | route hkind hunits hlength hneeded hbody =>
    exact decodeOption_route hkind hunits hlength hneeded hbody
  | dnsServers hkind hne hbody =>
    exact decodeOption_dns hkind (hfits.dns hkind).1 (hfits.dns hkind).2 hbody
  | unknown hforeign =>
    obtain ⟨hlink, hnetwork, hroute, hdns⟩ := not_mem_knownKinds.mp hforeign
    rw [decodeOption, if_neg hlink, if_neg hnetwork, if_neg hroute, if_neg hdns, b.drop_toList]

theorem decodeOption_of_defect (h : b.Defect e) :
    decodeOption b.kind b.units b.toList = .error e := by
  cases h with
  | linkLayer hkind hunits => rw [decodeOption, if_pos hkind, if_pos hunits]
  | networkUnits hkind hunits =>
    rw [decodeOption, hkind, if_neg (by decide), if_pos rfl, if_pos hunits]
  | networkLength hkind hunits hlong =>
    rw [decodeOption, hkind, if_neg (by decide), if_pos rfl, if_neg (by simp [hunits]),
      b.octet_toList, if_pos hlong]
  | routeLong hkind hlong =>
    rw [decodeOption, hkind, if_neg (by decide), if_neg (by decide), if_pos rfl, if_pos hlong]
  | routeLength hkind hunits hlong =>
    rw [decodeOption, hkind, if_neg (by decide), if_neg (by decide), if_pos rfl,
      if_neg (UInt8.not_lt.mpr hunits), b.octet_toList, routeOctets?_of_gt hlong]
  | routeShort hkind hunits hlength hshort =>
    have hpos := routeUnits_pos b.networkLength
    have hlack : b.units.toNat < 1 + keptOctets b.networkLength / 8 := by
      rw [keptOctets]
      omega
    rw [decodeOption, hkind, if_neg (by decide), if_neg (by decide), if_pos rfl,
      if_neg (UInt8.not_lt.mpr hunits), b.octet_toList, routeOctets?_of_le hlength]
    show (if _ then _ else _) = _
    rw [if_pos hlack]
  | dns hkind hbad =>
    have hbad' : b.units < 3 ∨ b.units % 2 = 0 := by
      rw [UInt8.lt_iff_toNat_lt, ← UInt8.toNat_inj, UInt8.toNat_mod]
      simpa using hbad
    rw [decodeOption, hkind, if_neg (by decide), if_neg (by decide), if_neg (by decide),
      if_pos rfl, if_pos hbad']

/-! ## Rows -/

/-- One turn of the loop: a block is read by its kind, and the rest by itself. -/
theorem decodeOptions_block (b : Block) (rest : List UInt8) :
    decodeOptions (b.toList ++ rest) = do
      let option ← decodeOption b.kind b.units b.toList
      let options ← decodeOptions rest
      return option :: options := by
  have hlist : b.toList ++ rest = b.kind :: b.units :: (b.body ++ rest) := rfl
  have hblock : (b.kind :: b.units :: (b.body ++ rest)).take (8 * b.units.toNat) = b.toList := by
    rw [← hlist]
    exact List.take_left' b.length_toList
  -- kind and length are already taken off, so two octets less are dropped
  have hrest : (b.body ++ rest).drop (8 * b.units.toNat - 2) = rest := by
    have hlen := b.length_body
    exact List.drop_left' (by omega)
  rw [hlist, decodeOptions, if_neg b.units_ne_zero]
  simp only [hblock, hrest]
  rw [if_neg (by rw [b.length_toList]; exact Nat.lt_irrefl _)]

theorem decodeOptions_of_front {bytes : List UInt8} (h : FrontDefect bytes e) :
    decodeOptions bytes = .error e := by
  cases h with
  | stray last => rw [decodeOptions]
  | zeroLength kind rest => rw [decodeOptions, if_pos rfl]
  | @overrun kind units rest hunits hshort =>
    rw [decodeOptions, if_neg hunits]
    simp only [List.length_take, List.length_cons]
    rw [if_pos (by omega)]
  | @block b rest e hdefect =>
    rw [decodeOptions_block, decodeOption_of_defect hdefect]
    rfl

theorem decodeOptions_of_spells {bytes : List UInt8} {options : List MessageOption}
    (h : RowSpells bytes options) : decodeOptions bytes = .ok options := by
  obtain ⟨blocks, rfl, hblocks⟩ := h
  induction hblocks with
  | nil => rw [List.flatMap_nil, decodeOptions]
  | cons hb _ ih =>
    rw [List.flatMap_cons, decodeOptions_block, decodeOption_of_spells hb, ih]
    rfl

theorem decodeOptions_of_defect {bytes : List UInt8} (h : RowDefect bytes e) :
    decodeOptions bytes = .error e := by
  obtain ⟨blocks, rest, hfits, rfl, hfront⟩ := h
  induction blocks with
  | nil => exact decodeOptions_of_front hfront
  | cons b blocks ih =>
    obtain ⟨o, ho⟩ := (hfits b List.mem_cons_self).exists_spells
    have hrest := ih fun c hc => hfits c (List.mem_cons_of_mem _ hc)
    rw [List.flatMap_cons, List.append_assoc, decodeOptions_block, decodeOption_of_spells ho,
      hrest]
    rfl

/-! ## Messages -/

section Branches

variable {bytes : List UInt8}

theorem decode_short (h : bytes.length < 4) : decode bytes = .error (.truncated bytes.length) := by
  rw [decode, if_pos h]

theorem decode_other (hlen : 4 ≤ bytes.length) (htype : ¬ IsRouterType (octet bytes 0)) :
    decode bytes = .ok (.other (octet bytes 0)) := by
  have hlong : ¬ bytes.length < 4 := Nat.not_lt.mpr hlen
  rw [IsRouterType, not_or] at htype
  simp [decode, hlong, htype]

theorem decode_code (hlen : 4 ≤ bytes.length) (htype : IsRouterType (octet bytes 0))
    (hcode : octet bytes 1 ≠ 0) :
    decode bytes = .error (.badCode (octet bytes 0) (octet bytes 1)) := by
  have hlong : ¬ bytes.length < 4 := Nat.not_lt.mpr hlen
  rcases htype with htype | htype <;> simp [decode, hlong, htype, hcode]

theorem decode_header (hlen : 4 ≤ bytes.length) (htype : IsRouterType (octet bytes 0))
    (hcode : octet bytes 1 = 0) (hshort : bytes.length < headerLength (octet bytes 0)) :
    decode bytes = .error (.truncated bytes.length) := by
  have hlong : ¬ bytes.length < 4 := Nat.not_lt.mpr hlen
  rcases htype with htype | htype
  · rw [htype, headerLength_solicitation] at hshort
    simp [decode, hlong, htype, hcode, hshort]
  · rw [htype, headerLength_advertisement] at hshort
    have hne : ¬ typeAdvertisement = typeSolicitation := by decide
    simp [decode, hlong, htype, hcode, hshort, hne]

theorem decode_solicitation (htype : octet bytes 0 = typeSolicitation) (hcode : octet bytes 1 = 0)
    (hlen : 8 ≤ bytes.length) :
    decode bytes = (decodeOptions (bytes.drop 8)).map .solicitation := by
  have hlong : ¬ bytes.length < 4 := by omega
  have hfull : ¬ bytes.length < 8 := Nat.not_lt.mpr hlen
  simp [decode, hlong, htype, hcode, hfull]

/-- What the sixteen octets before the options say, with the options put in. -/
def readHeader (bytes : List UInt8) (options : List MessageOption) : RouterAdvertisement where
  hopLimit := octet bytes 4
  managed := hasFlag (octet bytes 5) 0x80
  other := hasFlag (octet bytes 5) 0x40
  preference := .ofFlags (octet bytes 5)
  routerLifetime := .ofSecs (field bytes 6 2)
  reachableTime := .ofMillis (field bytes 8 4)
  retransmitTimer := .ofMillis (field bytes 12 4)
  options := options

theorem decode_advertisement (htype : octet bytes 0 = typeAdvertisement)
    (hcode : octet bytes 1 = 0) (hlen : 16 ≤ bytes.length) :
    decode bytes =
      (decodeOptions (bytes.drop 16)).map fun options =>
        .advertisement (readHeader bytes options) := by
  have hlong : ¬ bytes.length < 4 := by omega
  have hfull : ¬ bytes.length < 16 := Nat.not_lt.mpr hlen
  have hne : ¬ typeAdvertisement = typeSolicitation := by decide
  simp [decode, readHeader, hlong, htype, hcode, hfull, hne]

end Branches

theorem readHeader_advertisementHeader (checksum lifetime : Octets 2) (hopLimit flags : UInt8)
    (reachable retransmit : Octets 4) (rest : List UInt8) (options : List MessageOption) :
    readHeader (advertisementHeader checksum hopLimit flags lifetime reachable retransmit ++ rest)
        options =
      { hopLimit
        managed := flags.toNat.testBit 7
        other := flags.toNat.testBit 6
        preference := preferenceIn flags
        routerLifetime := seconds lifetime
        reachableTime := milliseconds reachable
        retransmitTimer := milliseconds retransmit
        options } := by
  have hlist : advertisementHeader checksum hopLimit flags lifetime reachable retransmit ++ rest =
      typeAdvertisement :: 0 :: (checksum.toList ++ (hopLimit :: flags ::
        (lifetime.toList ++ (reachable.toList ++ (retransmit.toList ++ rest))))) := by
    simp [advertisementHeader]
  have hflags : octet (advertisementHeader checksum hopLimit flags lifetime reachable retransmit ++
      rest) 5 = flags := by
    simp [hlist]
  rw [readHeader, hflags, hasFlag_eq_testBit (i := 7) rfl, hasFlag_eq_testBit (i := 6) rfl,
    Preference.ofFlags_eq]
  simp [hlist, seconds, milliseconds]

theorem decode_of_spells {bytes : List UInt8} {m : Message} (h : Spells bytes m) :
    decode bytes = .ok m := by
  cases h with
  | @solicitation checksum reserved rest options hrow =>
    have hheader := length_solicitationHeader checksum reserved
    rw [decode_solicitation rfl rfl (le_length_append hheader _), List.drop_left' hheader,
      decodeOptions_of_spells hrow]
    rfl
  | @advertisement checksum lifetime hopLimit flags reachable retransmit rest options hrow =>
    have hheader :=
      length_advertisementHeader checksum hopLimit flags lifetime reachable retransmit
    rw [decode_advertisement rfl rfl (le_length_append hheader _), List.drop_left' hheader,
      decodeOptions_of_spells hrow]
    show Except.ok (Message.advertisement (readHeader _ options)) = _
    rw [readHeader_advertisementHeader]
  | other htype hlen => exact decode_other (Nat.succ_le_succ hlen) htype

theorem decode_of_defect {bytes : List UInt8} (h : MessageDefect bytes e) :
    decode bytes = .error e := by
  cases h with
  | short hlen => exact decode_short hlen
  | code hlen htype hcode => exact decode_code hlen htype hcode
  | header hlen htype hcode hshort => exact decode_header hlen htype hcode hshort
  | option htype hcode hlen hrow =>
    rcases htype with htype | htype
    · rw [htype, headerLength_solicitation] at hlen hrow
      rw [decode_solicitation htype hcode hlen, decodeOptions_of_defect hrow]
      rfl
    · rw [htype, headerLength_advertisement] at hlen hrow
      rw [decode_advertisement htype hcode hlen, decodeOptions_of_defect hrow]
      rfl

/-- The grammar leaves nothing out, so the reader says nothing else. -/
theorem decode_eq_ok_iff {bytes : List UInt8} {m : Message} :
    decode bytes = .ok m ↔ Spells bytes m :=
  eq_ok_iff_of_cases (spells_or_defect bytes) decode_of_spells decode_of_defect

theorem decode_eq_error_iff {bytes : List UInt8} :
    decode bytes = .error e ↔ MessageDefect bytes e :=
  eq_error_iff_of_cases (spells_or_defect bytes) decode_of_spells decode_of_defect

/-- **The reader and its grammar.** A string of octets is accepted exactly when
it is well formed; it is read as the message whose layout it is, with one
option for every block and in the order of the blocks; and it is refused for
its first defect. -/
theorem decode_grammar (bytes : List UInt8) :
    ((∃ m, decode bytes = .ok m) ↔ WellFormed bytes) ∧
      (∀ m, decode bytes = .ok m ↔ Spells bytes m) ∧
      ∀ e, decode bytes = .error e ↔ MessageDefect bytes e := by
  refine ⟨?_, fun m => decode_eq_ok_iff, fun e => decode_eq_error_iff⟩
  rw [wellFormed_iff]
  exact exists_congr fun m => decode_eq_ok_iff

end MeshNode.Ndp
