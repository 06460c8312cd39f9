import MeshNode.Addressing
import MeshNode.Peering.Remote
import MeshNode.Proofs.Net.Ipv6Text

/-!
# Endpoints on the local link

An endpoint in a peer table is a text, and four of its characters tell whether it is on the local
link. For an address it is the first ten bits that tell.

* **schemes** — `go_append`, `go_scheme`: where a text is cut;
* **four characters** — `beginsLinkLocal_append_iff`: the text of an address tells its first sixteen
  bits;
* **endpoints** — `Endpoint`: an address with a zone, a port and a scheme; `dropScheme_chars`: what
  is left of it when the scheme is dropped;
* **both notions** — `agree_iff_first_block`.
-/

namespace MeshNode.Peering

open MeshNode.Text

variable {s t : List Char}

/-! ## Schemes -/

theorem go_cons (c : Char) (s : List Char) :
    dropScheme.go (c :: s) =
      if c = ':' ∧ s.take 2 = ['/', '/'] then some (s.drop 2) else dropScheme.go s := by
  by_cases h : c = ':' ∧ s.take 2 = ['/', '/']
  · obtain ⟨rfl, hslashes⟩ := h
    rw [if_pos ⟨rfl, hslashes⟩, ← List.take_append_drop 2 s, hslashes]
    rfl
  · rw [if_neg h, dropScheme.go]
    rintro rest rfl rfl
    exact h ⟨rfl, rfl⟩

theorem slashes_append_iff (ht : t.head? ≠ some '/') :
    (s ++ t).take 2 = ['/', '/'] ↔ s.take 2 = ['/', '/'] := by
  match s, t with
  | [], [] => rfl
  | [], c :: t => simp_all
  | [b], [] => simp
  | [b], c :: t => simp_all
  | b :: b' :: s, t => rfl

/-- A scheme ends in one of two texts, unless the second begins with a slash. -/
theorem go_append (s : List Char) (ht : t.head? ≠ some '/') :
    dropScheme.go (s ++ t) = ((dropScheme.go s).map (· ++ t)).or (dropScheme.go t) := by
  induction s with
  | nil => rfl
  | cons c s ih =>
    rw [List.cons_append, go_cons, go_cons]
    by_cases h : c = ':' ∧ s.take 2 = ['/', '/']
    · have hlength : 2 ≤ s.length := by
        have htake : (s.take 2).length = 2 := congrArg List.length h.2
        rw [List.length_take] at htake
        omega
      rw [if_pos h, if_pos (h.imp_right (slashes_append_iff ht).mpr),
        List.drop_append_of_le_length hlength]
      rfl
    · rw [if_neg h, if_neg fun h' => h (h'.imp_right (slashes_append_iff ht).mp), ih]

theorem go_of_not_mem (h : '/' ∉ s) : dropScheme.go s = none := by
  induction s with
  | nil => rfl
  | cons c s ih =>
    rw [List.mem_cons, not_or] at h
    rw [go_cons, if_neg, ih h.2]
    rintro ⟨-, hslashes⟩
    exact h.2 (List.mem_of_mem_take (hslashes ▸ List.mem_cons_self))

theorem go_scheme (h : ':' ∉ s) (t : List Char) :
    dropScheme.go (s ++ ':' :: '/' :: '/' :: t) = some t := by
  induction s with
  | nil => rfl
  | cons c s ih =>
    rw [List.mem_cons, not_or] at h
    rw [List.cons_append, go_cons, if_neg fun hc => h.1 hc.1.symm, ih h.2]

/-- A text has no scheme when nowhere in it is a `://`. -/
theorem go_eq_none_iff : dropScheme.go s = none ↔ ¬ "://".toList <:+: s := by
  induction s with
  | nil => exact iff_of_true rfl (by decide)
  | cons c s ih =>
    have hprefix : "://".toList <+: c :: s ↔ c = ':' ∧ s.take 2 = ['/', '/'] := by
      show [':', '/', '/'] <+: c :: s ↔ _
      rw [List.cons_prefix_cons, List.prefix_iff_eq_take]
      exact and_congr eq_comm eq_comm
    rw [go_cons, List.infix_cons_iff, hprefix]
    split
    · next h => exact iff_of_false nofun fun hnot => hnot (Or.inl h)
    · next h => rw [ih, or_iff_right h]

/-! ## Four characters -/

/-- A text begins with the four characters of a link-local address, perhaps in brackets. -/
def BeginsLinkLocal (s : List Char) : Prop :=
  ((s.dropWhile (· == '[')).take 4).map lowerAscii = "fe80".toList

theorem isLinkLocalRemote_iff (s : List Char) :
    isLinkLocalRemote (String.ofList s) = true ↔ BeginsLinkLocal (dropScheme s) := by
  rw [isLinkLocalRemote, String.toList_ofList, beq_iff_eq]
  rfl

/-- An address lies in `fe80::/16`. -/
def isFirstBlock (a : Ipv6) : Bool := a.toList.take 2 == [0xfe, 0x80]

theorem isLinkLocal_of_isFirstBlock {a : Ipv6} (h : isFirstBlock a = true) :
    isLinkLocal a = true := by
  obtain ⟨hi, lo, bytes, next, gs, hbytes, -⟩ := Ipv6.groups_eq_cons a
  have hfirst : a.get 0 = hi := by
    have hget := a.getElem?_toList 0
    rw [hbytes] at hget
    exact (Option.some.inj hget).symm
  have hsecond : a.get 1 = lo := by
    have hget := a.getElem?_toList 1
    rw [hbytes] at hget
    exact (Option.some.inj hget).symm
  rw [isFirstBlock, hbytes, beq_iff_eq] at h
  cases h
  rw [isLinkLocal, hfirst, hsecond]
  rfl

/-- A text of an address, with letters of either case. -/
def Spells (s : List Char) (a : Ipv6) : Prop := s.map lowerAscii = a.render.toList

theorem Spells.not_mem {a : Ipv6} (h : Spells s a) {c : Char} (hlower : lowerAscii c = c)
    (hc : ¬ (c = ':' ∨ c = '.' ∨ isHex c = true ∨ isDecimal c = true)) : c ∉ s := by
  intro hmem
  have hrender : lowerAscii c ∈ a.render.toList := h ▸ List.mem_map_of_mem hmem
  rw [hlower] at hrender
  exact hc (Ipv6.mem_render hrender)

theorem Spells.dropWhile_append {a : Ipv6} (h : Spells s a) (t : List Char) :
    (s ++ t).dropWhile (· == '[') = s ++ t := by
  have hbracket : '[' ∉ s := h.not_mem (by decide) (by decide)
  cases s with
  | nil =>
    obtain ⟨hi, lo, bytes, next, gs, -, hgroups⟩ := Ipv6.groups_eq_cons a
    obtain ⟨digits, tail, hrender, -⟩ := Ipv6.exists_toList_render hgroups
    rw [Spells, List.map_nil, hrender] at h
    exact absurd h.symm (by simp)
  | cons c s =>
    rw [List.mem_cons, not_or] at hbracket
    rw [List.cons_append, List.dropWhile_cons_of_neg]
    simpa using Ne.symm hbracket.1

/-- The text of an address tells its first sixteen bits. -/
theorem beginsLinkLocal_append_iff {a : Ipv6} (h : Spells s a) (t : List Char) :
    BeginsLinkLocal (s ++ t) ↔ isFirstBlock a = true := by
  obtain ⟨hi, lo, bytes, next, gs, hbytes, hgroups⟩ := Ipv6.groups_eq_cons a
  obtain ⟨digits, tail, hrender, hdigits⟩ := Ipv6.exists_toList_render hgroups
  rw [BeginsLinkLocal, h.dropWhile_append, List.map_take, List.map_append, h, hrender,
    List.append_assoc, List.cons_append]
  have hhi : hi.toNat < 256 := hi.toNat_lt
  have hlo : lo.toNat < 256 := lo.toNat_lt
  have hgroup : hi.toNat * 256 + lo.toNat = 0xfe80 ↔ isFirstBlock a = true := by
    rw [isFirstBlock, hbytes, beq_iff_eq]
    show _ ↔ [hi, lo] = [0xfe, 0x80]
    rw [List.cons.injEq, List.cons.injEq, ← UInt8.toNat_inj, ← UInt8.toNat_inj]
    show _ ↔ hi.toNat = 254 ∧ lo.toNat = 128 ∧ _
    simp only [and_true]
    omega
  rw [← hgroup]
  -- a first group of zeros may be missing, and then the text begins with a colon
  rcases hdigits with rfl | ⟨rfl, hzero⟩
  · have hcode : "fe80".toList = hexDigits 0xfe80 := by decide
    rw [hcode]
    exact Ipv6.take_hexDigits_iff (by omega) (by decide) _
  · rw [hzero]
    exact iff_of_false (fun htake => absurd (List.cons.inj htake).1 (by decide)) (by decide)

/-! ## Endpoints -/

/-- An endpoint of an address as a peer table writes it. -/
structure Endpoint where
  address : Ipv6
  /-- The address in text. -/
  spelling : List Char
  zone? : Option (List Char)
  /-- With a port, the address stands in brackets. -/
  port? : Option Nat
  scheme? : Option (List Char)
  spells : Spells spelling address
  colon_not_mem : ∀ s, scheme? = some s → ':' ∉ s

namespace Endpoint

variable {e : Endpoint}

/-- What stands before the address. -/
def opening (e : Endpoint) : List Char := if e.port?.isSome then ['['] else []

/-- What follows the address up to the end of its zone. -/
def zone (e : Endpoint) : List Char :=
  match e.zone? with
  | none => []
  | some z => '%' :: z

/-- What stands behind the zone. -/
def closing (e : Endpoint) : List Char :=
  match e.port? with
  | none => []
  | some n => ']' :: ':' :: (toString n).toList

/-- The endpoint without its scheme. -/
def bare (e : Endpoint) : List Char := e.opening ++ (e.spelling ++ (e.zone ++ e.closing))

/-- The characters of an endpoint. -/
def chars (e : Endpoint) : List Char :=
  match e.scheme? with
  | none => e.bare
  | some s => s ++ ':' :: '/' :: '/' :: e.bare

/-- The text of an endpoint. -/
def text (e : Endpoint) : String := String.ofList e.chars

/-- What of a zone is taken for the endpoint: with no scheme before it, what follows a `://`. -/
def mistaken? (e : Endpoint) : Option (List Char) :=
  match e.scheme? with
  | none => e.zone?.bind dropScheme.go
  | some _ => none

theorem mistaken?_eq_none_iff (e : Endpoint) :
    e.mistaken? = none ↔
      (e.scheme? = none → ∀ z, e.zone? = some z → ¬ "://".toList <:+: z) := by
  unfold mistaken?
  cases e.scheme? with
  | some s => simp
  | none =>
    cases e.zone? with
    | none => simp
    | some z => simpa using go_eq_none_iff

theorem closing_not_mem (e : Endpoint) : '/' ∉ e.closing := by
  unfold closing
  split
  · exact List.not_mem_nil
  · next n _ =>
    have hdigits : '/' ∉ (toString n).toList := fun h =>
      absurd (isDecimal_of_mem_toString h) (by decide)
    rw [List.mem_cons, List.mem_cons, not_or, not_or]
    exact ⟨by decide, by decide, hdigits⟩

theorem head?_closing_ne (e : Endpoint) : e.closing.head? ≠ some '/' := fun h =>
  e.closing_not_mem (List.mem_of_head? h)

theorem go_zone (e : Endpoint) :
    dropScheme.go (e.zone ++ e.closing) =
      (e.zone?.bind dropScheme.go).map (· ++ e.closing) := by
  have hnone : dropScheme.go e.closing = none := go_of_not_mem e.closing_not_mem
  unfold zone
  cases e.zone? with
  | none => exact hnone
  | some z =>
    rw [List.cons_append, go_cons, if_neg (by simp), go_append z e.head?_closing_ne, hnone,
      Option.or_none]
    rfl

theorem go_bare (e : Endpoint) :
    dropScheme.go e.bare = (e.zone?.bind dropScheme.go).map (· ++ e.closing) := by
  have hfront : '/' ∉ e.opening ++ e.spelling := by
    rw [List.mem_append, not_or]
    refine ⟨?_, e.spells.not_mem (by decide) (by decide)⟩
    unfold opening
    split <;> decide
  have hhead : (e.zone ++ e.closing).head? ≠ some '/' := by
    unfold zone
    split
    · exact e.head?_closing_ne
    · simp
  -- no slash stands before the zone, so a `://` can only be in it
  rw [bare, ← List.append_assoc, go_append _ hhead, go_of_not_mem hfront, go_zone]
  rfl

/-- What is left of an endpoint when its scheme is dropped: all of it, unless a zone is mistaken. -/
theorem dropScheme_chars (e : Endpoint) :
    dropScheme e.chars = (e.mistaken?.map (· ++ e.closing)).getD e.bare := by
  unfold chars mistaken?
  cases hscheme : e.scheme? with
  | some s =>
    rw [dropScheme, go_scheme (e.colon_not_mem s hscheme)]
    rfl
  | none => rw [dropScheme, go_bare]

theorem beginsLinkLocal_bare (e : Endpoint) :
    BeginsLinkLocal e.bare ↔ isFirstBlock e.address = true := by
  rw [← beginsLinkLocal_append_iff e.spells (e.zone ++ e.closing)]
  unfold bare opening
  split <;> rfl

/-- Four characters of an endpoint tell about its address, unless a zone is mistaken for it. -/
theorem isLinkLocalRemote_text (h : e.mistaken? = none) :
    isLinkLocalRemote e.text = true ↔ isFirstBlock e.address = true := by
  rw [text, isLinkLocalRemote_iff, dropScheme_chars, h]
  exact e.beginsLinkLocal_bare

end Endpoint

/-! ## Both notions -/

theorem hasInternetPeer_iff {es : List Endpoint} (h : ∀ e ∈ es, e.mistaken? = none) :
    hasInternetPeer (es.map Endpoint.text) = true ↔
      ¬ ∀ e ∈ es, isFirstBlock e.address = true := by
  rw [hasInternetPeer, List.any_map, List.any_eq_true, not_forall]
  refine exists_congr fun e => ?_
  rw [Classical.not_imp]
  refine and_congr_right fun he => ?_
  rw [Function.comp_apply, Bool.not_eq_true', ← Bool.not_eq_true,
    Endpoint.isLinkLocalRemote_text (h e he)]

/-- Text and address agree whether an endpoint is on the local link exactly when the address, if it
is link-local, lies in `fe80::/16`; and whether a peer table has an Internet peer exactly when that
holds of all its addresses or one of them is not link-local. Without a scheme, a `://` in a zone
leaves the answer to what follows it, whatever the address. -/
theorem agree_iff_first_block (es : List Endpoint) :
    (∀ e ∈ es, e.mistaken? = none ↔
      (e.scheme? = none → ∀ z, e.zone? = some z → ¬ "://".toList <:+: z)) ∧
    (∀ e ∈ es, e.mistaken? = none →
      (isLinkLocalRemote e.text = isLinkLocal e.address ↔
        (isLinkLocal e.address = true → isFirstBlock e.address = true))) ∧
    (∀ e ∈ es, ∀ rest, e.mistaken? = some rest →
      (isLinkLocalRemote e.text = true ↔ BeginsLinkLocal (rest ++ e.closing))) ∧
    ((∀ e ∈ es, e.mistaken? = none) →
      ((hasInternetPeer (es.map Endpoint.text) = true ↔
          ∃ e ∈ es, isLinkLocal e.address = false) ↔
        ((∀ e ∈ es, isLinkLocal e.address = true) →
          ∀ e ∈ es, isFirstBlock e.address = true))) := by
  refine ⟨fun e _ => e.mistaken?_eq_none_iff, fun e _ h => ?_, fun e _ rest h => ?_, fun h => ?_⟩
  · rw [Bool.eq_iff_iff, Endpoint.isLinkLocalRemote_text h]
    exact ⟨fun hagree => hagree.mpr, fun hblock => ⟨isLinkLocal_of_isFirstBlock, hblock⟩⟩
  · rw [Endpoint.text, isLinkLocalRemote_iff, Endpoint.dropScheme_chars, h]
    rfl
  · have hbeyond : (∃ e ∈ es, isLinkLocal e.address = false) ↔
        ¬ ∀ e ∈ es, isLinkLocal e.address = true := by simp
    have hblocks : (∀ e ∈ es, isFirstBlock e.address = true) →
        ∀ e ∈ es, isLinkLocal e.address = true :=
      fun hall e he => isLinkLocal_of_isFirstBlock (hall e he)
    rw [hasInternetPeer_iff h, hbeyond, not_iff_not]
    exact ⟨Iff.mpr, fun hlocal => ⟨hblocks, hlocal⟩⟩

/-- An endpoint of the last block of the link-local addresses. -/
def lastBlockEndpoint : Endpoint where
  address := Octets.padded 16 ([0xfe, 0xbf] ++ List.replicate 13 0 ++ [1])
  spelling := "febf::1".toList
  zone? := some "eth0".toList
  port? := some 4000
  scheme? := none
  spells := by unfold Spells; decide +kernel
  colon_not_mem := nofun

/-- A neighbour on the link counts as an Internet peer. -/
theorem neighbour_counts_as_internet_peer :
    lastBlockEndpoint.text = "[febf::1%eth0]:4000" ∧
      isLinkLocal lastBlockEndpoint.address = true ∧
      isLinkLocalRemote lastBlockEndpoint.text = false ∧
      hasInternetPeer ([lastBlockEndpoint].map Endpoint.text) = true ∧
      ¬ ∃ e ∈ [lastBlockEndpoint], isLinkLocal e.address = false := by
  decide +kernel

/-- An endpoint of the first block, in capitals and behind a scheme. -/
def firstBlockEndpoint : Endpoint where
  address := Octets.padded 16 ([0xfe, 0x80] ++ List.replicate 12 0 ++ [0xab, 0xcd])
  spelling := "FE80::ABCD".toList
  zone? := some "25eth0".toList
  port? := some 4000
  scheme? := some "tcp".toList
  spells := by unfold Spells; decide +kernel
  colon_not_mem := by decide

/-- The same without a scheme, but with one in the zone. -/
def schemeInZone : Endpoint :=
  { firstBlockEndpoint with
    zone? := some "eth://0".toList
    scheme? := none
    colon_not_mem := nofun }

/-- The letters, the brackets and the scheme make no difference; a zone with a scheme does. -/
theorem neighbour_on_link :
    firstBlockEndpoint.text = "tcp://[FE80::ABCD%25eth0]:4000" ∧
      isLinkLocalRemote firstBlockEndpoint.text = isLinkLocal firstBlockEndpoint.address ∧
      hasInternetPeer ([firstBlockEndpoint].map Endpoint.text) = false ∧
      schemeInZone.text = "[FE80::ABCD%eth://0]:4000" ∧
      (isLinkLocalRemote schemeInZone.text = true ↔ BeginsLinkLocal "0]:4000".toList) := by
  obtain ⟨-, hagree, -, htable⟩ := agree_iff_first_block [firstBlockEndpoint]
  obtain ⟨-, -, hzone, -⟩ := agree_iff_first_block [schemeInZone]
  have hall : ∀ e ∈ [firstBlockEndpoint], e.mistaken? = none := by
    intro e he
    rw [List.mem_singleton.mp he]
    rfl
  have hblock : isFirstBlock firstBlockEndpoint.address = true := by decide
  have hlocal : ¬ ∃ e ∈ [firstBlockEndpoint], isLinkLocal e.address = false := by decide
  have hpeer := (htable hall).mpr fun _ e he => by
    rw [List.mem_singleton.mp he]
    exact hblock
  refine ⟨by decide +kernel, ?_, ?_, by decide +kernel, ?_⟩
  · exact (hagree _ (List.mem_singleton_self _) (hall _ (List.mem_singleton_self _))).mpr
      fun _ => hblock
  · exact Bool.eq_false_iff.mpr (mt hpeer.mp hlocal)
  · exact hzone _ (List.mem_singleton_self _) "0".toList rfl

end MeshNode.Peering
