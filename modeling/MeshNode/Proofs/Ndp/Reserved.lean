import MeshNode.Proofs.Ndp.Reading

/-!
# Bits that say nothing

Some bits of a message are reserved, and of the four values of a preference one is. The reader
does not see either: two strings that differ in nothing else are read as the same message, or
refused with the same error.

* **roles** — `Role` is what the reader makes of an octet; `blockRole`, `rowRole` and `role` give
  every octet of an option, of a row of options and of a message its role, the boundaries of the
  options being those that the string itself has;
* **octets** — `Role.keep` leaves of an octet what counts; `Role.hasFlag_keep` and
  `Role.ofFlags_keep`: the flags that are read are in it;
* **strings** — `Alike`: of two strings the same counts. They agree in every field without
  reserved bits, and stay alike when they are cut;
* **blocks, rows, messages** — `decodeOption_alike`, `decodeOptions_alike` and `decode_alike`:
  strings that are alike are read alike. In a row, kinds and lengths count, so the options of both
  strings have the same boundaries (`Alike.of_blocks`);
* **all of it** — `reserved_bits_ignored`.
-/

namespace MeshNode.Ndp

/-! ## Roles -/

/-- The bits of a preference. -/
def preferenceMask : UInt8 := 0x18

/-- What the reader makes of an octet. -/
structure Role where
  /-- The bits that are reserved. -/
  reserved : UInt8 := 0
  /-- Whether the octet holds a preference. -/
  preference : Bool := false
  /-- A preference is not reserved. -/
  spares : preference = true → ~~~reserved &&& preferenceMask = preferenceMask := by decide

/-- The role of an octet of an option, counted from its kind on. -/
def blockRole (kind : UInt8) (i : Nat) : Role :=
  if kind = kindNetwork then
    if i = 3 then { reserved := 0x3f }
    else if 12 ≤ i ∧ i < 16 then { reserved := 0xff }
    else {}
  else if kind = kindRoute then
    if i = 3 then { reserved := 0xe7, preference := true } else {}
  else if kind = kindDns then
    if i = 2 ∨ i = 3 then { reserved := 0xff } else {}
  else {}

/-- The role of an octet of a row of options. An option need not be complete for its octets to
have their roles; behind one without a length, all bits count. -/
def rowRole (bytes : List UInt8) (i : Nat) : Role :=
  match bytes with
  | kind :: units :: rest =>
    if units = 0 then {}
    else if i < 8 * units.toNat then blockRole kind i
    else rowRole (rest.drop (8 * units.toNat - 2)) (i - 8 * units.toNat)
  | _ => {}
termination_by bytes.length

/-- The role of an octet before the options of a message. -/
def headerRole (icmpType : UInt8) (i : Nat) : Role :=
  if i = 2 ∨ i = 3 then { reserved := 0xff }
  else if icmpType = typeSolicitation ∧ 4 ≤ i ∧ i < 8 then { reserved := 0xff }
  else if icmpType = typeAdvertisement ∧ i = 5 then { reserved := 0x27, preference := true }
  else {}

instance (icmpType : UInt8) : Decidable (IsRouterType icmpType) :=
  inferInstanceAs (Decidable (icmpType = typeSolicitation ∨ icmpType = typeAdvertisement))

/-- The role of an octet of a message. -/
def role (bytes : List UInt8) (i : Nat) : Role :=
  let icmpType := octet bytes 0
  if IsRouterType icmpType ∧ headerLength icmpType ≤ i then
    rowRole (bytes.drop (headerLength icmpType)) (i - headerLength icmpType)
  else headerRole icmpType i

/-- Two strings of one length that differ in reserved bits only. -/
def DifferInReserved (a b : List UInt8) : Prop :=
  a.length = b.length ∧ ∀ i < a.length,
    octet a i &&& ~~~(role a i).reserved = octet b i &&& ~~~(role a i).reserved

/-- The second string is the first with some of its preferences 10 replaced by 00. -/
def PreferencesReplaced (a b : List UInt8) : Prop :=
  a.length = b.length ∧ ∀ i < a.length,
    octet b i = octet a i ∨
      (role a i).preference = true ∧ octet a i &&& preferenceMask = 0x10 ∧
        octet b i = octet a i &&& ~~~preferenceMask

instance (a b : List UInt8) : Decidable (DifferInReserved a b) :=
  inferInstanceAs (Decidable (_ ∧ _))

instance (a b : List UInt8) : Decidable (PreferencesReplaced a b) :=
  inferInstanceAs (Decidable (_ ∧ _))

/-! ## Octets -/

namespace Role

variable {r : Role} {x y mask : UInt8}

/-- What counts of an octet: reserved bits are cleared, and so is a preference 10. -/
def keep (r : Role) (x : UInt8) : UInt8 :=
  let bits := x &&& ~~~r.reserved
  if r.preference = true ∧ bits &&& preferenceMask = 0x10 then bits &&& ~~~preferenceMask
  else bits

@[simp] theorem keep_whole (x : UInt8) : ({} : Role).keep x = x := by
  simp [keep]

theorem keep_eq_of_reserved (h : x &&& ~~~r.reserved = y &&& ~~~r.reserved) :
    r.keep x = r.keep y := by
  rw [keep, keep, h]

theorem spared (hp : r.preference = true) (x : UInt8) :
    x &&& ~~~r.reserved &&& preferenceMask = x &&& preferenceMask := by
  rw [UInt8.and_assoc, r.spares hp]

/-- Of a preference 10, its octet keeps 00. -/
theorem keep_of_unused (hp : r.preference = true) (hx : x &&& preferenceMask = 0x10) :
    r.keep x = x &&& ~~~r.reserved &&& ~~~preferenceMask := by
  rw [keep, if_pos ⟨hp, by rw [spared hp, hx]⟩]

theorem keep_of_used (hx : x &&& ~~~r.reserved &&& preferenceMask ≠ 0x10) :
    r.keep x = x &&& ~~~r.reserved := by
  rw [keep, if_neg fun h => hx h.2]

theorem clear_preference (x : UInt8) : x &&& ~~~preferenceMask &&& preferenceMask = 0 := by
  rw [UInt8.and_assoc, UInt8.not_and_self, UInt8.and_zero]

/-- A preference 10 and a preference 00 count the same. -/
theorem keep_replaced (hp : r.preference = true) (hx : x &&& preferenceMask = 0x10) :
    r.keep (x &&& ~~~preferenceMask) = r.keep x := by
  have hused : x &&& ~~~preferenceMask &&& ~~~r.reserved &&& preferenceMask ≠ 0x10 := by
    rw [spared hp, clear_preference]
    decide
  rw [keep_of_used hused, keep_of_unused hp hx, UInt8.and_assoc, UInt8.and_assoc,
    UInt8.and_comm (~~~preferenceMask)]

/-- Reading a flag that counts. -/
theorem hasFlag_keep (hmask : ~~~r.reserved &&& mask = mask)
    (hflag : ~~~preferenceMask &&& mask = mask) : hasFlag (r.keep x) mask = hasFlag x mask := by
  have hand : r.keep x &&& mask = x &&& mask := by
    rw [keep]
    split
    · rw [UInt8.and_assoc, hflag, UInt8.and_assoc, hmask]
    · rw [UInt8.and_assoc, hmask]
  rw [hasFlag, hasFlag, hand]

end Role

theorem ofFlags_eq_of_and {x y : UInt8} (h : x &&& preferenceMask = y &&& preferenceMask) :
    Preference.ofFlags x = Preference.ofFlags y := by
  have hshift : ∀ z : UInt8, z >>> 3 &&& (3 : UInt8) = (z &&& preferenceMask) >>> 3 := by
    intro z
    rw [UInt8.shiftRight_and]
    rfl
  rw [Preference.ofFlags, Preference.ofFlags, hshift, hshift, h]

/-- Reading a preference. The values 10 and 00 both mean medium. -/
theorem Role.ofFlags_keep {r : Role} (hp : r.preference = true) (x : UInt8) :
    Preference.ofFlags (r.keep x) = Preference.ofFlags x := by
  by_cases hx : x &&& preferenceMask = 0x10
  · have hmedium : Preference.ofFlags x = Preference.ofFlags 0x10 := ofFlags_eq_of_and hx
    have hzero : Preference.ofFlags (r.keep x) = Preference.ofFlags 0 := by
      apply ofFlags_eq_of_and
      rw [Role.keep_of_unused hp hx, Role.clear_preference]
      rfl
    rw [hmedium, hzero]
    rfl
  · apply ofFlags_eq_of_and
    rw [Role.keep_of_used (by rwa [Role.spared hp]), Role.spared hp]

/-! ## Strings -/

/-- Two strings of one length of which the same counts, octet by octet. -/
structure Alike (roles : Nat → Role) (x y : List UInt8) : Prop where
  length_eq : x.length = y.length
  keep_octet (i : Nat) : (roles i).keep (octet x i) = (roles i).keep (octet y i)

theorem octet_eq_getD (bytes : List UInt8) (i : Nat) : octet bytes i = bytes[i]?.getD 0 :=
  List.getD_eq_getElem?_getD

theorem octet_of_length_le {bytes : List UInt8} {i : Nat} (h : bytes.length ≤ i) :
    octet bytes i = 0 :=
  List.getD_eq_default _ _ h

theorem octet_drop (bytes : List UInt8) (n i : Nat) :
    octet (bytes.drop n) i = octet bytes (n + i) := by
  rw [octet_eq_getD, octet_eq_getD, List.getElem?_drop]

theorem octet_take {bytes : List UInt8} {n i : Nat} (h : i < n) :
    octet (bytes.take n) i = octet bytes i := by
  rw [octet_eq_getD, octet_eq_getD, List.getElem?_take_of_lt h]

theorem eq_of_octet_eq {x y : List UInt8} (hlen : x.length = y.length)
    (h : ∀ i, octet x i = octet y i) : x = y := by
  apply List.ext_getElem hlen
  intro i hx hy
  have hi := h i
  rwa [octet, octet, List.getD_eq_getElem _ _ hx, List.getD_eq_getElem _ _ hy] at hi

namespace Alike

variable {roles : Nat → Role} {x y : List UInt8}

/-- Past the end of both strings there is nothing to compare. -/
theorem of_lt (hlen : x.length = y.length)
    (h : ∀ i < x.length, (roles i).keep (octet x i) = (roles i).keep (octet y i)) :
    Alike roles x y := by
  refine ⟨hlen, fun i => ?_⟩
  by_cases hi : i < x.length
  · exact h i hi
  · have hx : x.length ≤ i := Nat.le_of_not_lt hi
    rw [octet_of_length_le hx, octet_of_length_le (hlen ▸ hx)]

theorem octet_eq (h : Alike roles x y) {i : Nat} (hi : roles i = {}) : octet x i = octet y i := by
  have hkeep := h.keep_octet i
  rwa [hi, Role.keep_whole, Role.keep_whole] at hkeep

theorem hasFlag_eq (h : Alike roles x y) {i : Nat} {mask : UInt8}
    (hmask : ~~~(roles i).reserved &&& mask = mask) (hflag : ~~~preferenceMask &&& mask = mask) :
    hasFlag (octet x i) mask = hasFlag (octet y i) mask := by
  rw [← Role.hasFlag_keep hmask hflag, h.keep_octet, Role.hasFlag_keep hmask hflag]

theorem ofFlags_eq (h : Alike roles x y) {i : Nat} (hp : (roles i).preference = true) :
    Preference.ofFlags (octet x i) = Preference.ofFlags (octet y i) := by
  rw [← Role.ofFlags_keep hp, h.keep_octet, Role.ofFlags_keep hp]

theorem drop (h : Alike roles x y) (n : Nat) :
    Alike (fun i => roles (n + i)) (x.drop n) (y.drop n) := by
  constructor
  · rw [List.length_drop, List.length_drop, h.length_eq]
  · intro i
    rw [octet_drop, octet_drop, h.keep_octet]

theorem take (h : Alike roles x y) (n : Nat) : Alike roles (x.take n) (y.take n) := by
  apply of_lt
  · rw [List.length_take, List.length_take, h.length_eq]
  · intro i hi
    have hn : i < n := Nat.lt_of_lt_of_le hi (List.length_take_le n x)
    rw [octet_take hn, octet_take hn, h.keep_octet]

theorem congr {roles' : Nat → Role} (h : Alike roles x y) (hroles : ∀ i < x.length,
    roles i = roles' i) : Alike roles' x y :=
  of_lt h.length_eq fun i hi => by rw [← hroles i hi, h.keep_octet]

/-- Where all bits count, strings that are alike are one. -/
theorem eq_of_whole (h : Alike roles x y) (hroles : ∀ i < x.length, roles i = {}) : x = y := by
  have hwhole : Alike (fun _ => {}) x y := h.congr hroles
  exact eq_of_octet_eq h.length_eq fun i => hwhole.octet_eq rfl

theorem drop_eq (h : Alike roles x y) {n : Nat} (hroles : ∀ i, n ≤ i → roles i = {}) :
    x.drop n = y.drop n :=
  (h.drop n).eq_of_whole fun i _ => hroles (n + i) (Nat.le_add_right n i)

theorem field_eq (h : Alike roles x y) {n width : Nat}
    (hroles : ∀ i, n ≤ i → i < n + width → roles i = {}) : field x n width = field y n width := by
  have hslice : (x.drop n).take width = (y.drop n).take width := by
    apply ((h.drop n).take width).eq_of_whole
    intro i hi
    have hwidth : i < width := Nat.lt_of_lt_of_le hi (List.length_take_le width _)
    exact hroles (n + i) (Nat.le_add_right n i) (Nat.add_lt_add_left hwidth n)
  rw [field, field, hslice]

end Alike

/-! ## Blocks -/

theorem blockRole_network {i : Nat} (hflags : i ≠ 3) (hreserved : i < 12 ∨ 16 ≤ i) :
    blockRole kindNetwork i = {} := by
  rw [blockRole, if_pos rfl, if_neg hflags, if_neg (by omega)]

theorem blockRole_route {i : Nat} (hflags : i ≠ 3) : blockRole kindRoute i = {} := by
  rw [blockRole, if_neg (by decide), if_pos rfl, if_neg hflags]

theorem blockRole_dns {i : Nat} (hreserved : i ≠ 2 ∧ i ≠ 3) : blockRole kindDns i = {} := by
  rw [blockRole, if_neg (by decide), if_neg (by decide), if_pos rfl, if_neg (by omega)]

theorem blockRole_other {kind : UInt8} (hnetwork : kind ≠ kindNetwork) (hroute : kind ≠ kindRoute)
    (hdns : kind ≠ kindDns) (i : Nat) : blockRole kind i = {} := by
  rw [blockRole, if_neg hnetwork, if_neg hroute, if_neg hdns]

/-- The kind and the length of an option count. -/
theorem blockRole_of_lt_two (kind : UInt8) {i : Nat} (hi : i < 2) : blockRole kind i = {} := by
  by_cases hnetwork : kind = kindNetwork
  · rw [hnetwork, blockRole_network (by omega) (by omega)]
  by_cases hroute : kind = kindRoute
  · rw [hroute, blockRole_route (by omega)]
  by_cases hdns : kind = kindDns
  · rw [hdns, blockRole_dns (by omega)]
  exact blockRole_other hnetwork hroute hdns i

section Blocks

variable {x y : List UInt8}

theorem decodeOption_network_alike (units : UInt8) (h : Alike (blockRole kindNetwork) x y) :
    decodeOption kindNetwork units x = decodeOption kindNetwork units y := by
  have hlength : octet x 2 = octet y 2 :=
    h.octet_eq (blockRole_network (by decide) (.inl (by decide)))
  have honLink : hasFlag (octet x 3) 0x80 = hasFlag (octet y 3) 0x80 :=
    h.hasFlag_eq (by decide) (by decide)
  have hautonomous : hasFlag (octet x 3) 0x40 = hasFlag (octet y 3) 0x40 :=
    h.hasFlag_eq (by decide) (by decide)
  have hvalid : field x 4 4 = field y 4 4 :=
    h.field_eq fun i _ _ => blockRole_network (by omega) (by omega)
  have hpreferred : field x 8 4 = field y 8 4 :=
    h.field_eq fun i _ _ => blockRole_network (by omega) (by omega)
  have haddress : x.drop 16 = y.drop 16 :=
    h.drop_eq fun i _ => blockRole_network (by omega) (by omega)
  have hlink : ¬ (kindNetwork = kindSource ∨ kindNetwork = kindTarget) := by decide
  simp only [decodeOption, if_neg hlink, reduceIte, hlength, honLink, hautonomous, hvalid,
    hpreferred, haddress]

theorem decodeOption_route_alike (units : UInt8) (h : Alike (blockRole kindRoute) x y) :
    decodeOption kindRoute units x = decodeOption kindRoute units y := by
  have hlength : octet x 2 = octet y 2 := h.octet_eq (blockRole_route (by decide))
  have hpreference : Preference.ofFlags (octet x 3) = Preference.ofFlags (octet y 3) :=
    h.ofFlags_eq rfl
  have hlifetime : field x 4 4 = field y 4 4 :=
    h.field_eq fun i _ _ => blockRole_route (by omega)
  have haddress : x.drop 8 = y.drop 8 := h.drop_eq fun i _ => blockRole_route (by omega)
  have hlink : ¬ (kindRoute = kindSource ∨ kindRoute = kindTarget) := by decide
  have hnetwork : kindRoute ≠ kindNetwork := by decide
  simp only [decodeOption, if_neg hlink, if_neg hnetwork, reduceIte, hlength, hpreference,
    hlifetime, haddress]

theorem decodeOption_dns_alike (units : UInt8) (h : Alike (blockRole kindDns) x y) :
    decodeOption kindDns units x = decodeOption kindDns units y := by
  have hlifetime : field x 4 4 = field y 4 4 :=
    h.field_eq fun i _ _ => blockRole_dns (by omega)
  have hservers : x.drop 8 = y.drop 8 := h.drop_eq fun i _ => blockRole_dns (by omega)
  have hlink : ¬ (kindDns = kindSource ∨ kindDns = kindTarget) := by decide
  have hnetwork : kindDns ≠ kindNetwork := by decide
  have hroute : kindDns ≠ kindRoute := by decide
  simp only [decodeOption, if_neg hlink, if_neg hnetwork, if_neg hroute, reduceIte, hlifetime,
    hservers]

/-- Blocks of one kind and length that are alike are one option, or refused for one reason. -/
theorem decodeOption_alike {kind : UInt8} (units : UInt8) (h : Alike (blockRole kind) x y) :
    decodeOption kind units x = decodeOption kind units y := by
  by_cases hnetwork : kind = kindNetwork
  · subst hnetwork
    exact decodeOption_network_alike units h
  by_cases hroute : kind = kindRoute
  · subst hroute
    exact decodeOption_route_alike units h
  by_cases hdns : kind = kindDns
  · subst hdns
    exact decodeOption_dns_alike units h
  rw [h.eq_of_whole fun i _ => blockRole_other hnetwork hroute hdns i]

end Blocks

/-! ## Rows -/

/-- An option has the roles of its kind, and after it the row begins anew. -/
theorem rowRole_block (b : Block) (rest : List UInt8) (i : Nat) :
    rowRole (b.toList ++ rest) i =
      if i < 8 * b.units.toNat then blockRole b.kind i
      else rowRole rest (i - 8 * b.units.toNat) := by
  have hrest : (b.body ++ rest).drop (8 * b.units.toNat - 2) = rest := by
    have hlen := b.length_body
    exact List.drop_left' (by omega)
  show rowRole (b.kind :: b.units :: (b.body ++ rest)) i = _
  rw [rowRole, if_neg b.units_ne_zero, hrest]

theorem rowRole_of_lt_two (bytes : List UInt8) {i : Nat} (hi : i < 2) : rowRole bytes i = {} := by
  match bytes with
  | [] => rw [rowRole]; simp
  | [_] => rw [rowRole]; simp
  | kind :: units :: rest =>
    rw [rowRole]
    split
    · rfl
    · next hzero =>
      have hpos : units.toNat ≠ 0 := fun h => hzero (UInt8.toNat_inj.mp h)
      rw [if_pos (by omega), blockRole_of_lt_two kind hi]

/-- Rows that are alike and begin with blocks of one length: the blocks are alike, and so is what
follows them. -/
theorem Alike.of_blocks {b c : Block} {rest rest' : List UInt8} (hunits : b.units = c.units)
    (h : Alike (rowRole (b.toList ++ rest)) (b.toList ++ rest) (c.toList ++ rest')) :
    Alike (blockRole b.kind) b.toList c.toList ∧ Alike (rowRole rest) rest rest' := by
  have hb : b.toList.length = 8 * b.units.toNat := b.length_toList
  have hc : c.toList.length = 8 * b.units.toNat := by rw [c.length_toList, hunits]
  constructor
  · have hfront := h.take (8 * b.units.toNat)
    rw [List.take_left' hb, List.take_left' hc] at hfront
    refine hfront.congr fun i hi => ?_
    rw [rowRole_block, if_pos (by rwa [hb] at hi)]
  · have hback := h.drop (8 * b.units.toNat)
    rw [List.drop_left' hb, List.drop_left' hc] at hback
    refine hback.congr fun i _ => ?_
    rw [rowRole_block, if_neg (by omega), Nat.add_sub_cancel_left]

/-- Rows that are alike have the same boundaries, so that their options are alike in turn. -/
theorem decodeOptions_alike {x y : List UInt8} (h : Alike (rowRole x) x y) :
    decodeOptions x = decodeOptions y := by
  induction hn : x.length using Nat.strongRecOn generalizing x y with
  | ind n ih =>
    have hlen := h.length_eq
    match x, y with
    | [], [] => rfl
    | [_], [_] => rw [decodeOptions, decodeOptions]
    | kind :: units :: rest, kind' :: units' :: rest' =>
      have hkind : kind = kind' := h.octet_eq (i := 0) (rowRole_of_lt_two _ (by decide))
      have hunits : units = units' := h.octet_eq (i := 1) (rowRole_of_lt_two _ (by decide))
      subst hkind hunits
      rw [List.length_cons, List.length_cons, List.length_cons, List.length_cons] at hlen
      by_cases hzero : units = 0
      · subst hzero
        rw [decodeOptions_of_front (.zeroLength kind rest),
          decodeOptions_of_front (.zeroLength kind rest')]
      by_cases hshort : rest.length + 2 < 8 * units.toNat
      · rw [decodeOptions_of_front (.overrun hzero hshort),
          decodeOptions_of_front (.overrun hzero (by omega))]
      obtain ⟨b, tail, hbkind, hbunits, hb⟩ :=
        exists_block_append kind hzero (show 8 * units.toNat ≤ rest.length + 2 by omega)
      obtain ⟨c, tail', hckind, hcunits, hc⟩ :=
        exists_block_append kind hzero (show 8 * units.toNat ≤ rest'.length + 2 by omega)
      rw [hb, hc] at h
      obtain ⟨hfront, hback⟩ := h.of_blocks (hbunits.trans hcunits.symm)
      have hshorter : tail.length < n := by
        have hpos := b.toNat_units_pos
        rw [hb, List.length_append, b.length_toList] at hn
        omega
      rw [hbkind] at hfront
      rw [hb, hc, decodeOptions_block, decodeOptions_block, hbkind, hbunits, hckind, hcunits,
        decodeOption_alike units hfront, ih tail.length hshorter hback rfl]

/-! ## Messages -/

theorem headerRole_of_lt_two (icmpType : UInt8) {i : Nat} (hi : i < 2) :
    headerRole icmpType i = {} := by
  rw [headerRole, if_neg (by omega), if_neg (by omega), if_neg (by omega)]

theorem headerRole_advertisement {i : Nat} (hi : 4 ≤ i) (hflags : i ≠ 5) :
    headerRole typeAdvertisement i = {} := by
  have hsolicitation : typeAdvertisement ≠ typeSolicitation := by decide
  rw [headerRole, if_neg (by omega), if_neg fun h => hsolicitation h.1,
    if_neg fun h => hflags h.2]

section Messages

variable {a b : List UInt8}

theorem role_of_lt {i : Nat} (hi : i < headerLength (octet a 0)) :
    role a i = headerRole (octet a 0) i := by
  rw [role, if_neg fun h => Nat.not_le.mpr hi h.2]

theorem role_of_le {i : Nat} (htype : IsRouterType (octet a 0))
    (hi : headerLength (octet a 0) ≤ i) :
    role a i = rowRole (a.drop (headerLength (octet a 0))) (i - headerLength (octet a 0)) := by
  rw [role, if_pos ⟨htype, hi⟩]

theorem role_of_lt_two (a : List UInt8) {i : Nat} (hi : i < 2) : role a i = {} := by
  have hheader : 2 ≤ headerLength (octet a 0) := by
    rw [headerLength]
    split <;> decide
  rw [role_of_lt (by omega), headerRole_of_lt_two _ hi]

/-- The options of messages that are alike. -/
theorem decodeOptions_drop_alike (h : Alike (role a) a b) (htype : IsRouterType (octet a 0)) :
    decodeOptions (a.drop (headerLength (octet a 0))) =
      decodeOptions (b.drop (headerLength (octet a 0))) := by
  apply decodeOptions_alike
  refine (h.drop _).congr fun i _ => ?_
  rw [role_of_le htype (Nat.le_add_right _ i), Nat.add_sub_cancel_left]

theorem readHeader_alike (h : Alike (role a) a b) (htype : octet a 0 = typeAdvertisement) :
    readHeader a = readHeader b := by
  have hrole : ∀ i < 16, role a i = headerRole typeAdvertisement i := by
    intro i hi
    rw [role_of_lt (by rw [htype]; exact hi), htype]
  have hwhole : ∀ i, 4 ≤ i → i < 16 → i ≠ 5 → role a i = {} := by
    intro i hmin hmax hflags
    rw [hrole i hmax, headerRole_advertisement hmin hflags]
  have hflags : role a 5 = headerRole typeAdvertisement 5 := hrole 5 (by decide)
  have hhop : octet a 4 = octet b 4 := h.octet_eq (hwhole 4 (by decide) (by decide) (by decide))
  have hmanaged : hasFlag (octet a 5) 0x80 = hasFlag (octet b 5) 0x80 :=
    h.hasFlag_eq (by rw [hflags]; decide) (by decide)
  have hother : hasFlag (octet a 5) 0x40 = hasFlag (octet b 5) 0x40 :=
    h.hasFlag_eq (by rw [hflags]; decide) (by decide)
  have hpreference : Preference.ofFlags (octet a 5) = Preference.ofFlags (octet b 5) :=
    h.ofFlags_eq (by rw [hflags]; rfl)
  have hlifetime : field a 6 2 = field b 6 2 :=
    h.field_eq fun i _ _ => hwhole i (by omega) (by omega) (by omega)
  have hreachable : field a 8 4 = field b 8 4 :=
    h.field_eq fun i _ _ => hwhole i (by omega) (by omega) (by omega)
  have hretransmit : field a 12 4 = field b 12 4 :=
    h.field_eq fun i _ _ => hwhole i (by omega) (by omega) (by omega)
  funext options
  rw [readHeader, readHeader, hhop, hmanaged, hother, hpreference, hlifetime, hreachable,
    hretransmit]

/-- Messages that are alike are read alike, or refused for one reason. -/
theorem decode_alike (h : Alike (role a) a b) : decode a = decode b := by
  have hlen := h.length_eq
  have htype : octet a 0 = octet b 0 := h.octet_eq (role_of_lt_two a (by decide))
  have hcode : octet a 1 = octet b 1 := h.octet_eq (role_of_lt_two a (by decide))
  by_cases hshort : a.length < 4
  · rw [decode_short hshort, decode_short (hlen ▸ hshort), hlen]
  have hlong : 4 ≤ a.length := Nat.le_of_not_lt hshort
  by_cases hrouter : IsRouterType (octet a 0)
  case neg =>
    rw [decode_other hlong hrouter, decode_other (hlen ▸ hlong) (htype ▸ hrouter), htype]
  by_cases hzero : octet a 1 = 0
  case neg =>
    rw [decode_code hlong hrouter hzero,
      decode_code (hlen ▸ hlong) (htype ▸ hrouter) (hcode ▸ hzero), htype, hcode]
  by_cases hheader : a.length < headerLength (octet a 0)
  · rw [decode_header hlong hrouter hzero hheader,
      decode_header (hlen ▸ hlong) (htype ▸ hrouter) (hcode ▸ hzero) (hlen ▸ htype ▸ hheader),
      hlen]
  have hoptions := decodeOptions_drop_alike h hrouter
  rcases hrouter with hkind | hkind
  · rw [hkind, headerLength_solicitation] at hheader hoptions
    rw [decode_solicitation hkind hzero (by omega),
      decode_solicitation (htype ▸ hkind) (hcode ▸ hzero) (by omega), hoptions]
  · rw [hkind, headerLength_advertisement] at hheader hoptions
    rw [decode_advertisement hkind hzero (by omega),
      decode_advertisement (htype ▸ hkind) (hcode ▸ hzero) (by omega), hoptions,
      readHeader_alike h hkind]

end Messages

theorem DifferInReserved.alike {a b : List UInt8} (h : DifferInReserved a b) :
    Alike (role a) a b :=
  .of_lt h.1 fun i hi => Role.keep_eq_of_reserved (h.2 i hi)

theorem PreferencesReplaced.alike {a b : List UInt8} (h : PreferencesReplaced a b) :
    Alike (role a) a b := by
  refine .of_lt h.1 fun i hi => ?_
  rcases h.2 i hi with heq | ⟨hp, hunused, heq⟩
  · rw [heq]
  · rw [heq, Role.keep_replaced hp hunused]

/-- **Bits that say nothing.** Strings that differ in reserved bits only are read as one message
or refused with one error, and so are strings that differ by a preference 10 in place of 00. -/
theorem reserved_bits_ignored (a b : List UInt8) :
    (DifferInReserved a b → decode a = decode b) ∧ (PreferencesReplaced a b → decode a = decode b) :=
  ⟨fun h => decode_alike h.alike, fun h => decode_alike h.alike⟩

/-- An advertisement of a network, a route and a name server, by its reserved octets and its
three octets of flags. -/
def sample (reserved flags network route : UInt8) : List UInt8 :=
  [134, 0, reserved, reserved, 64, flags, 7, 8] ++ List.replicate 8 1 ++
    [3, 4, 64, network, 0, 0, 14, 16, 0, 0, 7, 8, reserved, reserved, reserved, reserved] ++
    List.replicate 16 2 ++ [24, 1, 0, route, 0, 0, 7, 8] ++
    [25, 3, reserved, reserved, 0, 0, 7, 8] ++ List.replicate 16 3

/-- All reserved bits of an advertisement set, and its two preferences 00 instead of 10. -/
theorem noisy_and_settled_read :
    (DifferInReserved (sample 0 0x90 0xc0 0x10) (sample 0xff 0xb7 0xff 0xf7) ∧
      decode (sample 0 0x90 0xc0 0x10) = decode (sample 0xff 0xb7 0xff 0xf7)) ∧
    PreferencesReplaced (sample 0 0x90 0xc0 0x10) (sample 0 0x80 0xc0 0x00) ∧
      decode (sample 0 0x90 0xc0 0x10) = decode (sample 0 0x80 0xc0 0x00) := by
  have hnoisy : DifferInReserved (sample 0 0x90 0xc0 0x10) (sample 0xff 0xb7 0xff 0xf7) := by
    decide +kernel
  have hsettled : PreferencesReplaced (sample 0 0x90 0xc0 0x10) (sample 0 0x80 0xc0 0x00) := by
    decide +kernel
  exact ⟨⟨hnoisy, (reserved_bits_ignored _ _).1 hnoisy⟩, hsettled,
    (reserved_bits_ignored _ _).2 hsettled⟩

end MeshNode.Ndp
