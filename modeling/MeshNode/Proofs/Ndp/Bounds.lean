import MeshNode.Proofs.Ndp.Chaining
import MeshNode.Proofs.Octets

/-!
# Every access is in bounds

Octets come from any host on the link. The reader takes them apart by places that it computes from
a length octet, and a place outside the row would end it. Here the reader is written down once more
with accesses that may fail: `none` is an access out of bounds, and everything else is a result.

* **accesses** — `slice?` is a part of a row, `layout?` a layout of fixed size at its front,
  `addressFrom?` an address that some octets begin, `chunks` a row in pieces of sixteen;
* **one option** — `decodeOption?`; its block has the octets that its length counts, and the rules of
  its kind make each access one inside it (`Block.decodeOption?_eq`);
* **turns** — `Scan.turn?`; a turn that goes on takes one block off the row, at least eight octets
  (`Scan.turn_goesOn`), which is why `Scan.finish?` ends;
* **messages** — `decode?`; `decoding_in_bounds`: there is no access out of bounds on any row, and
  the result is that of `decode`.
-/

namespace MeshNode.Ndp

/-! ## Accesses -/

/-- The octets from `start` up to `stop`, if both are places of the row, in this order. -/
def slice? (bytes : List UInt8) (start stop : Nat) : Option (List UInt8) :=
  if start ≤ stop ∧ stop ≤ bytes.length then some ((bytes.take stop).drop start) else none

/-- The `n` octets of a layout at the front of a row, if there are as many. -/
def layout? (n : Nat) (bytes : List UInt8) : Option (Octets n) := Octets.ofList? (bytes.take n)

/-- The address that begins with some octets and goes on with zeros, if there is room for all of
them. -/
def addressFrom? (bytes : List UInt8) : Option Ipv6 := (Octets.zero 16).copyAt? 0 bytes

/-- A row in pieces of sixteen octets, and what is left over at its end. -/
def chunks (bytes : List UInt8) : List (List UInt8) × List UInt8 :=
  if bytes.length < 16 then ([], bytes)
  else (bytes.take 16 :: (chunks (bytes.drop 16)).1, (chunks (bytes.drop 16)).2)
termination_by bytes.length

section Accesses

variable {n : Nat} {bytes : List UInt8}

theorem slice?_to_end {start : Nat} (h : start ≤ bytes.length) :
    slice? bytes start bytes.length = some (bytes.drop start) := by
  rw [slice?, if_pos ⟨h, Nat.le_refl _⟩, List.take_length]

theorem slice?_from_start {stop : Nat} (h : stop ≤ bytes.length) :
    slice? bytes 0 stop = some (bytes.take stop) := by
  rw [slice?, if_pos ⟨Nat.zero_le _, h⟩, List.drop_zero]

theorem layout?_append (o : Octets n) (rest : List UInt8) :
    layout? n (o.toList ++ rest) = some o := by
  rw [layout?, List.take_left' o.length_toList, Octets.ofList?_toList]

/-- A row that is long enough begins with the layout, and what is behind it is in bounds. -/
theorem exists_layout? (h : n ≤ bytes.length) :
    ∃ (o : Octets n) (rest : List UInt8), bytes = o.toList ++ rest ∧ layout? n bytes = some o := by
  obtain ⟨o, rest, rfl⟩ := Octets.exists_append h
  exact ⟨o, rest, rfl, layout?_append o rest⟩

theorem layout?_of_short (h : bytes.length < n) : layout? n bytes = none := by
  rw [layout?, Octets.ofList?, dif_neg]
  rw [List.length_take]
  omega

theorem ofList?_eq_padded (h : bytes.length = n) :
    Octets.ofList? bytes = some (Octets.padded n bytes) := by
  obtain ⟨o, rfl⟩ := Octets.exists_toList h
  rw [Octets.ofList?_toList, Octets.padded_toList]

theorem addressFrom?_eq_padded (h : bytes.length ≤ 16) :
    addressFrom? bytes = some (Octets.padded 16 bytes) := by
  have hroom : 0 + bytes.length ≤ 16 := by omega
  obtain ⟨o, ho⟩ := Option.isSome_iff_exists.mp ((Octets.zero 16).isSome_copyAt? hroom)
  have hzero : (Octets.zero 16).toList = List.replicate 16 0 := rfl
  rw [addressFrom?, ho]
  congr 1
  apply Octets.ext_toList
  rw [Octets.toList_of_copyAt? ho, Octets.toList_padded h, hzero, List.take_zero, List.nil_append,
    Nat.zero_add, List.drop_replicate]

/-- Addresses one after the other come apart with nothing left over. -/
theorem chunks_flatMap (servers : List Ipv6) :
    chunks (servers.flatMap (·.toList)) = (servers.map (·.toList), []) := by
  induction servers with
  | nil =>
    rw [chunks]
    rfl
  | cons s servers ih =>
    have hlong : ¬ (s.toList ++ servers.flatMap (·.toList)).length < 16 := by
      rw [List.length_append, s.length_toList]
      omega
    rw [List.flatMap_cons, chunks, if_neg hlong, List.take_left' s.length_toList,
      List.drop_left' s.length_toList, ih]
    rfl

theorem mapM_addressFrom? (servers : List Ipv6) :
    (servers.map (·.toList)).mapM addressFrom? = some servers := by
  induction servers with
  | nil => rfl
  | cons s servers ih =>
    rw [List.map_cons, List.mapM_cons, addressFrom?_eq_padded (Nat.le_of_eq s.length_toList),
      Octets.padded_toList, ih]
    rfl

theorem getElem?_eq_octet {i : Nat} (h : i < bytes.length) : bytes[i]? = some (octet bytes i) := by
  rw [octet, List.getElem?_eq_getElem h, List.getD_eq_getElem _ _ h]

theorem octet_append_of_lt (o : Octets n) (rest : List UInt8) {i : Nat} (h : i < n) :
    octet (o.toList ++ rest) i = octet o.toList i := by
  have hlen : i < o.toList.length := by rw [o.length_toList]; exact h
  rw [octet, octet, List.getD_append _ _ _ _ hlen]

theorem field_append_of_add_le (o : Octets n) (rest : List UInt8) {i width : Nat}
    (h : i + width ≤ n) : field (o.toList ++ rest) i width = field o.toList i width := by
  have hlen := o.length_toList
  rw [field, field, List.drop_append_of_le_length (by omega), List.take_append_of_le_length]
  rw [List.length_drop]
  omega

end Accesses

/-! ## One option -/

/-- One option from its block, `none` if an access is out of bounds. -/
def decodeOption? (kind length : UInt8) (raw : List UInt8) :
    Option (Except WireError MessageOption) :=
  if kind = kindSource ∨ kind = kindTarget then
    if length ≠ 1 then some (.error (.badOptionLength kind length))
    else do
      let address ← Octets.ofList? (← slice? raw 2 8)
      some (.ok (.linkLayer (kind == kindSource) address))
  else if kind = kindNetwork then
    match layout? 32 raw with
    | none => some (.error (.badOptionLength kind length))
    | some wire =>
      let wire := wire.toList
      if length ≠ 4 then some (.error (.badOptionLength kind length))
      else if octet wire 2 > 128 then some (.error (.badPrefixLength (octet wire 2)))
      else do
        let address ← Octets.ofList? (wire.drop 16)
        some <| .ok <| .network address (octet wire 2)
          (hasFlag (octet wire 3) 0x80) (hasFlag (octet wire 3) 0x40)
          (.ofSecs (field wire 4 4)) (.ofSecs (field wire 8 4))
  else if kind = kindRoute then
    if length > 3 then some (.error (.badOptionLength kind length))
    else match layout? 8 raw with
      | none => some (.error (.badOptionLength kind length))
      | some wire =>
        let wire := wire.toList
        match routeOctets? (octet wire 2) with
        | none => some (.error (.badPrefixLength (octet wire 2)))
        | some n =>
          if length.toNat < 1 + n / 8 then some (.error (.badOptionLength kind length))
          else do
            let address ← addressFrom? (← slice? raw 8 raw.length)
            some <| .ok <| .route address (octet wire 2)
              (.ofFlags (octet wire 3)) (.ofSecs (field wire 4 4))
  else if kind = kindDns then
    if length < 3 ∨ length % 2 = 0 then some (.error (.badOptionLength kind length))
    else match layout? 8 raw with
      | none => some (.error (.badOptionLength kind length))
      | some wire => do
        let servers ← (chunks (← slice? raw 8 raw.length)).1.mapM addressFrom?
        some (.ok (.dnsServers (.ofSecs (field wire.toList 4 4)) servers))
  else do
    let body ← slice? raw 2 raw.length
    some (.ok (.unknown kind body))

namespace Block

variable {b : Block}

theorem eight_le_length_toList (b : Block) : 8 ≤ b.toList.length := by
  have hpos := b.toNat_units_pos
  rw [b.length_toList]
  omega

/-- The eight octets at the front of a block. -/
theorem exists_front (b : Block) :
    ∃ (wire : Octets 8) (rest : List UInt8), b.toList = wire.toList ++ rest :=
  Octets.exists_append b.eight_le_length_toList

/-- The octets behind the first eight of a name server option are whole addresses. -/
theorem exists_servers (hodd : b.units.toNat % 2 = 1) :
    ∃ servers : List Ipv6, servers.length = b.units.toNat / 2 ∧
      b.toList.drop 8 = servers.flatMap (·.toList) := by
  apply Octets.exists_flatMap
  rw [List.length_drop, b.length_toList]
  omega

/-- The address of a link-layer option is all that is left of a block of one unit. -/
theorem decodeOption?_linkLayer (h : b.kind = kindSource ∨ b.kind = kindTarget) :
    decodeOption? b.kind b.units b.toList = some (decodeOption b.kind b.units b.toList) := by
  rw [decodeOption?, decodeOption, if_pos h, if_pos h]
  by_cases hunits : b.units = 1
  · have hlen : b.toList.length = 8 := by rw [b.length_toList, hunits]; rfl
    have hslice : slice? b.toList 2 8 = some (b.toList.drop 2) := by
      rw [← hlen]
      exact slice?_to_end (by omega)
    have haddress : Octets.ofList? (b.toList.drop 2) = some (Octets.padded 6 (b.toList.drop 2)) :=
      ofList?_eq_padded (by rw [List.length_drop, hlen])
    rw [if_neg (not_not_intro hunits), if_neg (not_not_intro hunits), hslice]
    simp only [Option.bind_eq_bind, Option.bind_some, haddress]
  · rw [if_pos hunits, if_pos hunits]

/-- A block of four units is the layout of a network option; a shorter one has a wrong length. -/
theorem decodeOption?_network (h : b.kind = kindNetwork) :
    decodeOption? b.kind b.units b.toList = some (decodeOption b.kind b.units b.toList) := by
  have hlink : ¬ (kindNetwork = kindSource ∨ kindNetwork = kindTarget) := by decide
  rw [decodeOption?, decodeOption, h, if_neg hlink, if_neg hlink, if_pos rfl, if_pos rfl]
  by_cases hunits : b.units = 4
  · have hlen : b.toList.length = 32 := by rw [b.length_toList, hunits]; rfl
    obtain ⟨wire, hwire⟩ := Octets.exists_toList hlen
    have hlayout : layout? 32 b.toList = some wire := by
      rw [hwire, ← List.append_nil wire.toList, layout?_append]
    have haddress : Octets.ofList? (wire.toList.drop 16) =
        some (Octets.padded 16 (wire.toList.drop 16)) :=
      ofList?_eq_padded (by rw [List.length_drop, wire.length_toList])
    rw [hlayout, hwire]
    simp only [hunits, ne_eq, not_true_eq_false, if_false, haddress, Option.bind_eq_bind,
      Option.bind_some]
    split <;> rfl
  · rw [if_pos hunits]
    cases layout? 32 b.toList with
    | none => rfl
    | some wire => exact if_pos hunits

/-- At most three units leave at most sixteen octets for the network of a route. -/
theorem decodeOption?_route (h : b.kind = kindRoute) :
    decodeOption? b.kind b.units b.toList = some (decodeOption b.kind b.units b.toList) := by
  have hlink : ¬ (kindRoute = kindSource ∨ kindRoute = kindTarget) := by decide
  have hnetwork : ¬ kindRoute = kindNetwork := by decide
  rw [decodeOption?, decodeOption, h, if_neg hlink, if_neg hlink, if_neg hnetwork, if_neg hnetwork,
    if_pos rfl, if_pos rfl]
  by_cases hunits : b.units > 3
  · rw [if_pos hunits, if_pos hunits]
  · have hthree : b.units.toNat ≤ 3 := by
      rw [gt_iff_lt, UInt8.lt_iff_toNat_lt] at hunits
      exact Nat.le_of_not_lt hunits
    obtain ⟨wire, rest, hwire⟩ := b.exists_front
    have hslice : slice? b.toList 8 b.toList.length = some (b.toList.drop 8) :=
      slice?_to_end b.eight_le_length_toList
    have haddress : addressFrom? (b.toList.drop 8) = some (Octets.padded 16 (b.toList.drop 8)) := by
      apply addressFrom?_eq_padded
      rw [List.length_drop, b.length_toList]
      omega
    have hlayout : layout? 8 b.toList = some wire := by rw [hwire, layout?_append]
    have hlength : octet b.toList 2 = octet wire.toList 2 := by
      rw [hwire, octet_append_of_lt wire rest (by decide)]
    have hflags : octet b.toList 3 = octet wire.toList 3 := by
      rw [hwire, octet_append_of_lt wire rest (by decide)]
    have hlifetime : field b.toList 4 4 = field wire.toList 4 4 := by
      rw [hwire, field_append_of_add_le wire rest (by decide)]
    rw [if_neg hunits, if_neg hunits, hlayout, hlength, hflags, hlifetime]
    simp only [hslice, haddress, Option.bind_eq_bind, Option.bind_some]
    cases routeOctets? (octet wire.toList 2) with
    | none => rfl
    | some n =>
      dsimp only
      split <;> rfl

/-- What is behind the first eight octets of a name server option has a length that sixteen divides
for every odd length octet. -/
theorem decodeOption?_dns (h : b.kind = kindDns) :
    decodeOption? b.kind b.units b.toList = some (decodeOption b.kind b.units b.toList) := by
  have hlink : ¬ (kindDns = kindSource ∨ kindDns = kindTarget) := by decide
  have hnetwork : ¬ kindDns = kindNetwork := by decide
  have hroute : ¬ kindDns = kindRoute := by decide
  rw [decodeOption?, decodeOption, h, if_neg hlink, if_neg hlink, if_neg hnetwork, if_neg hnetwork,
    if_neg hroute, if_neg hroute, if_pos rfl, if_pos rfl]
  by_cases hbad : b.units < 3 ∨ b.units % 2 = 0
  · rw [if_pos hbad, if_pos hbad]
  · have hodd : b.units.toNat % 2 = 1 := by
      rw [not_or, ← UInt8.toNat_inj, UInt8.toNat_mod] at hbad
      exact Nat.mod_two_ne_zero.mp hbad.2
    obtain ⟨wire, rest, hwire⟩ := b.exists_front
    obtain ⟨servers, hcount, hservers⟩ := b.exists_servers hodd
    have hslice : slice? b.toList 8 b.toList.length = some (b.toList.drop 8) :=
      slice?_to_end b.eight_le_length_toList
    have hlayout : layout? 8 b.toList = some wire := by rw [hwire, layout?_append]
    have hlifetime : field b.toList 4 4 = field wire.toList 4 4 := by
      rw [hwire, field_append_of_add_le wire rest (by decide)]
    rw [if_neg hbad, if_neg hbad, hlayout, hlifetime, ← hcount]
    simp only [hslice, hservers, Option.bind_eq_bind, Option.bind_some, chunks_flatMap,
      mapM_addressFrom?, addresses_flatMap]

/-- The rules of its kind keep every access inside a block. -/
theorem decodeOption?_eq (b : Block) :
    decodeOption? b.kind b.units b.toList = some (decodeOption b.kind b.units b.toList) := by
  by_cases hlink : b.kind = kindSource ∨ b.kind = kindTarget
  · exact decodeOption?_linkLayer hlink
  by_cases hnetwork : b.kind = kindNetwork
  · exact decodeOption?_network hnetwork
  by_cases hroute : b.kind = kindRoute
  · exact decodeOption?_route hroute
  by_cases hdns : b.kind = kindDns
  · exact decodeOption?_dns hdns
  have hslice : slice? b.toList 2 b.toList.length = some (b.toList.drop 2) :=
    slice?_to_end (Nat.le_trans (by decide) b.eight_le_length_toList)
  simp only [decodeOption?, decodeOption, if_neg hlink, if_neg hnetwork, if_neg hroute,
    if_neg hdns, hslice, Option.bind_eq_bind, Option.bind_some]

/-- The servers of an option that is accepted are all of the octets behind its first eight. -/
theorem no_octets_left {o : MessageOption} (hkind : b.kind = kindDns)
    (h : decodeOption b.kind b.units b.toList = .ok o) :
    (chunks (b.toList.drop 8)).2 = [] ∧ ∃ lifetime servers,
      o = .dnsServers lifetime servers ∧ b.toList.drop 8 = servers.flatMap (·.toList) := by
  rcases b.spells_or_defect with ⟨o', hspells⟩ | ⟨e, hdefect⟩
  · obtain rfl := Except.ok.inj (h.symm.trans (decodeOption_of_spells hspells))
    cases hspells with
    | @dnsServers reserved lifetime servers _ hne hbody =>
      have hservers : b.toList.drop 8 = servers.flatMap (·.toList) := by
        simp [Block.toList, hbody, Octets.drop_append_of_le]
      rw [hservers, chunks_flatMap]
      exact ⟨rfl, _, _, rfl, rfl⟩
    | @linkLayer source _ hlink _ =>
      rw [hkind] at hlink
      cases source <;> cases hlink
    | network hnetwork => cases hkind.symm.trans hnetwork
    | route hroute => cases hkind.symm.trans hroute
    | unknown hforeign => exact absurd hkind (not_mem_knownKinds.mp hforeign).2.2.2
  · cases h.symm.trans (decodeOption_of_defect hdefect)

end Block

/-! ## Turns -/

namespace Scan

variable {s s' : Scan}

/-- One turn of the reader, `none` if an access is out of bounds. -/
def turn? (s : Scan) : Option Turn :=
  if s.rest.isEmpty then some (.ended (.ok s.options))
  else if s.rest.length < 2 then some (.ended (.error (.truncated s.rest.length)))
  else do
    let kind ← s.rest[0]?
    let length ← s.rest[1]?
    if length = 0 then some (.ended (.error (.zeroLengthOption kind)))
    else
      let total := length.toNat * 8
      if total > s.rest.length then some (.ended (.error (.optionOverrun kind)))
      else
        match ← decodeOption? kind length (← slice? s.rest 0 total) with
        | .error e => some (.ended (.error e))
        | .ok o => do
          let rest ← slice? s.rest total s.rest.length
          some (.goesOn ⟨rest, s.options ++ [o]⟩)

theorem turn?_block (b : Block) (rest : List UInt8) (options : List MessageOption) :
    turn? ⟨b.toList ++ rest, options⟩ = some (turn ⟨b.toList ++ rest, options⟩) := by
  have hempty : ¬ (b.toList ++ rest).isEmpty = true := nofun
  have hlen : (b.toList ++ rest).length = 8 * b.units.toNat + rest.length := by
    rw [List.length_append, b.length_toList]
  have hpos := b.toNat_units_pos
  have hcut : slice? (b.toList ++ rest) 0 (b.units.toNat * 8) = some b.toList := by
    rw [slice?_from_start (by omega), Nat.mul_comm, List.take_left' b.length_toList]
  have hrest : slice? (b.toList ++ rest) (b.units.toNat * 8) (b.toList ++ rest).length =
      some rest := by
    rw [slice?_to_end (by omega), Nat.mul_comm, List.drop_left' b.length_toList]
  have hkind : (b.toList ++ rest)[0]? = some b.kind := rfl
  have hunits : (b.toList ++ rest)[1]? = some b.units := rfl
  have hlong : ¬ (b.toList ++ rest).length < 2 := by omega
  have hfits : ¬ b.units.toNat * 8 > (b.toList ++ rest).length := by omega
  rw [turn?, if_neg hempty, if_neg hlong, turn_block]
  simp only [hkind, hunits, Option.bind_eq_bind, Option.bind_some, if_neg b.units_ne_zero,
    if_neg hfits, hcut, b.decodeOption?_eq, hrest]
  cases decodeOption b.kind b.units b.toList <;> rfl

theorem turn?_eq (s : Scan) : s.turn? = some s.turn := by
  obtain ⟨bytes, options⟩ := s
  match bytes with
  | [] => rfl
  | [_] => rfl
  | kind :: units :: rest =>
    by_cases hzero : units = 0
    · subst hzero
      rfl
    by_cases hshort : rest.length + 2 < 8 * units.toNat
    · rw [turn_of_front (.overrun hzero hshort)]
      have hover : units.toNat * 8 > rest.length + 1 + 1 := by omega
      simp [turn?, hzero, hover]
    · obtain ⟨b, tail, -, -, hsplit⟩ := exists_block_append kind hzero (Nat.le_of_not_lt hshort)
      rw [hsplit]
      exact turn?_block b tail options

/-- A turn that goes on has read the block at the front of the row, and nothing else. -/
theorem turn_goesOn (h : s.turn = .goesOn s') : ∃ (b : Block) (o : MessageOption),
    s.rest = b.toList ++ s'.rest ∧ s'.options = s.options ++ [o] ∧
      decodeOption b.kind b.units b.toList = .ok o := by
  obtain ⟨bytes, options⟩ := s
  rcases front_cases bytes with rfl | ⟨e, hfront⟩ | ⟨b, o, rest, hspells, rfl⟩
  · cases h
  · cases (turn_of_front hfront options).symm.trans h
  · have hread := decodeOption_of_spells hspells
    rw [turn_block, hread] at h
    cases h
    exact ⟨b, o, rfl, rfl, hread⟩

theorem eight_le_of_turn? (h : s.turn? = some (.goesOn s')) :
    s'.rest.length + 8 ≤ s.rest.length := by
  obtain ⟨b, o, hrest, -, -⟩ := turn_goesOn (Option.some.inj ((turn?_eq s).symm.trans h))
  have hblock := b.eight_le_length_toList
  rw [hrest, List.length_append]
  omega

/-- The result of all turns, `none` if an access is out of bounds. -/
def finish? (s : Scan) : Option (Except WireError (List MessageOption)) :=
  match _ : s.turn? with
  | none => none
  | some (.ended result) => some result
  | some (.goesOn s') => s'.finish?
termination_by s.rest.length
decreasing_by
  have := eight_le_of_turn? ‹_›
  omega

theorem finish?_of_run {turns : Nat} {result : Except WireError (List MessageOption)}
    (h : s.run turns = some result) : s.finish? = some result := by
  induction turns generalizing s with
  | zero => cases h
  | succ turns ih =>
    rw [run] at h
    rw [finish?]
    split
    · next hnone => cases hnone.symm.trans (turn?_eq s)
    · next hended =>
      rw [Option.some.inj ((turn?_eq s).symm.trans hended)] at h
      exact h
    · next hgoes =>
      rw [Option.some.inj ((turn?_eq s).symm.trans hgoes)] at h
      exact ih h

/-- From the start of a row, the reader comes to the options of the row or the error. -/
theorem exists_run_start (bytes : List UInt8) :
    ∃ turns ≤ bytes.length / 8 + 1, (start bytes).run turns = some (decodeOptions bytes) := by
  obtain ⟨turns, hle, hrun⟩ := exists_run (start bytes)
  have hresult : (decodeOptions bytes).map ([] ++ ·) = decodeOptions bytes := by
    cases decodeOptions bytes <;> rfl
  exact ⟨turns, hle, hrun.trans (congrArg some hresult)⟩

theorem finish?_start (bytes : List UInt8) : (start bytes).finish? = some (decodeOptions bytes) := by
  obtain ⟨turns, -, hrun⟩ := exists_run_start bytes
  exact finish?_of_run hrun

end Scan

/-! ## Messages -/

/-- The message that some octets spell, `none` if an access is out of bounds. -/
def decode? (bytes : List UInt8) : Option (Except WireError Message) :=
  if bytes.length < 4 then some (.error (.truncated bytes.length))
  else do
    let icmpType ← bytes[0]?
    let code ← bytes[1]?
    if icmpType = typeSolicitation then
      if code ≠ 0 then some (.error (.badCode icmpType code))
      else
        match layout? 8 bytes with
        | none => some (.error (.truncated bytes.length))
        | some _ => do
          let options ← (Scan.start (← slice? bytes 8 bytes.length)).finish?
          some (options.map .solicitation)
    else if icmpType = typeAdvertisement then
      if code ≠ 0 then some (.error (.badCode icmpType code))
      else
        match layout? 16 bytes with
        | none => some (.error (.truncated bytes.length))
        | some header => do
          let options ← (Scan.start (← slice? bytes 16 bytes.length)).finish?
          some (options.map fun options => .advertisement (readHeader header.toList options))
    else some (.ok (.other icmpType))

theorem readHeader_append (header : Octets 16) (rest : List UInt8)
    (options : List MessageOption) :
    readHeader (header.toList ++ rest) options = readHeader header.toList options := by
  simp only [readHeader, octet_append_of_lt header rest (show 4 < 16 by decide),
    octet_append_of_lt header rest (show 5 < 16 by decide),
    field_append_of_add_le header rest (show 6 + 2 ≤ 16 by decide),
    field_append_of_add_le header rest (show 8 + 4 ≤ 16 by decide),
    field_append_of_add_le header rest (show 12 + 4 ≤ 16 by decide)]

theorem decode?_solicitation {bytes : List UInt8} (hlong : 4 ≤ bytes.length)
    (htype : octet bytes 0 = typeSolicitation) : decode? bytes = some (decode bytes) := by
  rw [decode?, decode, if_neg (Nat.not_lt.mpr hlong), if_neg (Nat.not_lt.mpr hlong),
    getElem?_eq_octet (by omega), getElem?_eq_octet (by omega), htype]
  simp only [Option.bind_eq_bind, Option.bind_some, if_true]
  by_cases hcode : octet bytes 1 = 0
  · rw [if_neg (not_not_intro hcode), if_neg (not_not_intro hcode)]
    by_cases hshort : bytes.length < 8
    · rw [layout?_of_short hshort, if_pos hshort]
    · obtain ⟨header, rest, -, hlayout⟩ := exists_layout? (Nat.le_of_not_lt hshort)
      rw [hlayout, if_neg hshort, slice?_to_end (Nat.le_of_not_lt hshort)]
      simp only [Option.bind_some, Scan.finish?_start]
  · rw [if_pos hcode, if_pos hcode]

theorem decode?_advertisement {bytes : List UInt8} (hlong : 4 ≤ bytes.length)
    (htype : octet bytes 0 = typeAdvertisement) : decode? bytes = some (decode bytes) := by
  have hne : ¬ typeAdvertisement = typeSolicitation := by decide
  rw [decode?, decode, if_neg (Nat.not_lt.mpr hlong), if_neg (Nat.not_lt.mpr hlong),
    getElem?_eq_octet (by omega), getElem?_eq_octet (by omega), htype]
  simp only [Option.bind_eq_bind, Option.bind_some, if_neg hne, if_true]
  by_cases hcode : octet bytes 1 = 0
  · rw [if_neg (not_not_intro hcode), if_neg (not_not_intro hcode)]
    by_cases hshort : bytes.length < 16
    · rw [layout?_of_short hshort, if_pos hshort]
    · obtain ⟨header, rest, hbytes, hlayout⟩ := exists_layout? (Nat.le_of_not_lt hshort)
      have hheader : (fun options => Message.advertisement (readHeader header.toList options)) =
          fun options => .advertisement (readHeader bytes options) := by
        funext options
        rw [hbytes, readHeader_append]
      rw [hlayout, if_neg hshort, slice?_to_end (Nat.le_of_not_lt hshort)]
      simp only [Option.bind_some, Scan.finish?_start, hheader]
      rfl
  · rw [if_pos hcode, if_pos hcode]

theorem decode?_eq (bytes : List UInt8) : decode? bytes = some (decode bytes) := by
  by_cases hshort : bytes.length < 4
  · rw [decode?, decode, if_pos hshort, if_pos hshort]
  have hlong := Nat.le_of_not_lt hshort
  by_cases hsolicitation : octet bytes 0 = typeSolicitation
  · exact decode?_solicitation hlong hsolicitation
  by_cases hadvertisement : octet bytes 0 = typeAdvertisement
  · exact decode?_advertisement hlong hadvertisement
  rw [decode?, decode, if_neg hshort, if_neg hshort, getElem?_eq_octet (by omega),
    getElem?_eq_octet (by omega)]
  simp only [Option.bind_eq_bind, Option.bind_some, if_neg hsolicitation, if_neg hadvertisement]

/-- **Every access is in bounds.** On any row of octets the reader comes to a result without an
access out of bounds. Each turn over the options does so too; one that goes on has read the option of
the block at the front of the row, and takes this block, eight octets or more, off the row, so the
turns end. A block of name servers that is accepted is cut in pieces of sixteen octets with nothing
left over, and its servers are all of the octets behind its first eight. -/
theorem decoding_in_bounds :
    (∀ bytes, decode? bytes = some (decode bytes)) ∧
    (∀ s : Scan, s.turn? = some s.turn) ∧
    (∀ s s' : Scan, s.turn? = some (.goesOn s') → ∃ (b : Block) (o : MessageOption),
      s.rest = b.toList ++ s'.rest ∧ s'.options = s.options ++ [o] ∧
      8 ≤ b.toList.length ∧ s'.rest.length + 8 ≤ s.rest.length ∧
      decodeOption? b.kind b.units b.toList = some (.ok o) ∧
      (b.kind = kindDns → (chunks (b.toList.drop 8)).2 = [] ∧ ∃ lifetime servers,
        o = .dnsServers lifetime servers ∧ b.toList.drop 8 = servers.flatMap (·.toList))) ∧
    ∀ bytes, ∃ turns ≤ bytes.length / 8 + 1,
      (Scan.start bytes).run turns = some (decodeOptions bytes) := by
  refine ⟨decode?_eq, Scan.turn?_eq, ?_, Scan.exists_run_start⟩
  intro s s' h
  obtain ⟨b, o, hrest, hoptions, hread⟩ :=
    Scan.turn_goesOn (Option.some.inj ((Scan.turn?_eq s).symm.trans h))
  refine ⟨b, o, hrest, hoptions, b.eight_le_length_toList, Scan.eight_le_of_turn? h, ?_, ?_⟩
  · rw [b.decodeOption?_eq, hread]
  · exact fun hkind => b.no_octets_left hkind hread

/-- The block of two name servers, `2001:db8::1` and `2001:db8::2`, for a minute. -/
def twoServers : List UInt8 :=
  [25, 5, 0, 0, 0, 0, 0, 60,
    32, 1, 13, 184, 0, 0, 0, 0, 0, 0, 0, 0, 0, 0, 0, 1,
    32, 1, 13, 184, 0, 0, 0, 0, 0, 0, 0, 0, 0, 0, 0, 2]

/-- Behind it, the block of an interface's own address is left for the next turn. -/
theorem two_servers_read :
    ∃ (b : Block) (options : List MessageOption),
      (Scan.start (twoServers ++ ownAddress)).turn? = some (.goesOn ⟨ownAddress, options⟩) ∧
      twoServers = b.toList ∧ (chunks (b.toList.drop 8)).2 = [] ∧
      ∃ lifetime servers, options = [.dnsServers lifetime servers] ∧
        servers.flatMap (·.toList) = twoServers.drop 8 := by
  have hturn : (Scan.start (twoServers ++ ownAddress)).turn? =
      some (.goesOn ⟨ownAddress, [.dnsServers (.ofSecs 60)
        (addresses 2 (twoServers.drop 8))]⟩) :=
    (Scan.turn?_eq _).trans rfl
  obtain ⟨b, o, hrest, hoptions, -, -, -, hservers⟩ := decoding_in_bounds.2.2.1 _ _ hturn
  have hblock : twoServers = b.toList := List.append_cancel_right hrest
  have hkind : b.kind = kindDns := (List.cons.inj hblock).1.symm
  obtain ⟨hleft, lifetime, servers, rfl, hall⟩ := hservers hkind
  exact ⟨b, _, hturn, hblock, hleft, lifetime, servers, hoptions, by rw [hblock, hall]⟩

end MeshNode.Ndp
