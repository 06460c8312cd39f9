import MeshNode.Net.Ipv6
import MeshNode.Proofs.Octets
import MeshNode.Proofs.Text.Cutting
import MeshNode.Proofs.Text.Digits

/-!
# Addresses, written and read back

* **groups** — `ofGroups?_groups`: an address is the address of its groups;
* **zeros** — `ZeroRun.Within`, `longestRun_within`: whatever run is shortened
  consists of zeros, so that reading may put zeros in its place;
* **the gap** — `splitGap?_joined`, `splitGap?_append`: groups between colons have
  no gap, and a gap between two such rows is found where it is;
* **the round trip** — `parse?_renderHex`;
* **the first group** — `exists_toList_render`: how the text of an address begins.
-/

namespace MeshNode.Ipv4

open MeshNode.Text

theorem mem_render {a : Ipv4} {c : Char} (h : c ∈ a.render.toList) :
    c = '.' ∨ isDecimal c = true := by
  rw [Ipv4.render, String.toList_intercalate] at h
  rcases mem_intercalate h with rfl | ⟨piece, hpiece, hc⟩
  · exact Or.inl rfl
  · obtain ⟨part, hpart, rfl⟩ := List.mem_map.mp hpiece
    obtain ⟨b, -, rfl⟩ := List.mem_map.mp hpart
    exact Or.inr (isDecimal_of_mem_toString hc)

end MeshNode.Ipv4

namespace MeshNode.Ipv6

open MeshNode.Text

/-! ## Groups -/

theorem beBytes_pair (hi lo : UInt8) : beBytes 2 (hi.toNat * 256 + lo.toNat) = [hi, lo] := by
  have hlo : lo.toNat < 256 := lo.toNat_lt
  have hfirst : (hi.toNat * 256 + lo.toNat) / Nat.pow 256 1 = hi.toNat := by
    rw [show Nat.pow 256 1 = 256 from rfl]
    omega
  have hsecond : UInt8.ofNat ((hi.toNat * 256 + lo.toNat) / Nat.pow 256 0) = lo := by
    rw [show Nat.pow 256 0 = 1 from rfl, Nat.div_one, ← UInt8.toNat_inj, UInt8.toNat_ofNat']
    omega
  rw [beBytes, beBytes, beBytes, hfirst, hsecond, UInt8.ofNat_toNat]

theorem length_go (bytes : List UInt8) : (groups.go bytes).length = bytes.length / 2 := by
  fun_induction groups.go bytes with
  | case1 hi lo rest ih =>
    rw [List.length_cons, ih, List.length_cons, List.length_cons]
    omega
  | case2 bytes h =>
    match bytes, h with
    | [], _ => rfl
    | [b], _ => exact Nat.div_eq_of_lt (Nat.lt_succ_self 1) |>.symm
    | hi :: lo :: rest, h => exact absurd rfl (h hi lo rest)

/-- An even number of octets is written as groups and back. -/
theorem groupOctets_go {bytes : List UInt8} (h : bytes.length % 2 = 0) :
    groupOctets (groups.go bytes) = bytes := by
  fun_induction groups.go bytes with
  | case1 hi lo rest ih =>
    rw [List.length_cons, List.length_cons] at h
    rw [groupOctets, List.flatMap_cons, beBytes_pair]
    exact congrArg (hi :: lo :: ·) (ih (by omega))
  | case2 bytes hnot =>
    match bytes, hnot, h with
    | [], _, _ => rfl
    | hi :: lo :: rest, hnot, _ => exact absurd rfl (hnot hi lo rest)

theorem lt_of_mem_go {bytes : List UInt8} {g : Nat} (h : g ∈ groups.go bytes) : g < 0x10000 := by
  fun_induction groups.go bytes with
  | case1 hi lo rest ih =>
    rcases List.mem_cons.mp h with rfl | h
    · have hhi : hi.toNat < 256 := hi.toNat_lt
      have hlo : lo.toNat < 256 := lo.toNat_lt
      omega
    · exact ih h
  | case2 => exact absurd h List.not_mem_nil

theorem length_groups (a : Ipv6) : (groups a).length = 8 := by
  rw [groups, length_go, a.length_toList]

theorem lt_of_mem_groups {a : Ipv6} {g : Nat} (h : g ∈ groups a) : g < 0x10000 := lt_of_mem_go h

/-- An address is the address of its groups. -/
theorem ofGroups?_groups (a : Ipv6) : ofGroups? (groups a) = some a := by
  have hoctets : groupOctets (groups a) = a.toList :=
    groupOctets_go (by rw [a.length_toList])
  rw [ofGroups?, hoctets]
  exact Octets.ofList?_toList a

/-! ## Zeros -/

/-- Whether a run consists of zeros of a row of groups. -/
def ZeroRun.Within (gs : List Nat) (r : ZeroRun) : Prop := ∀ i < r.length, gs[r.start + i]? = some 0

/-- The runs that are met on the way through a row are runs of zeros, and so is the longest. -/
theorem longestRun_within {whole gs : List Nat} {here : Nat} {current best : ZeroRun}
    (hgs : whole.drop here = gs) (hcurrent : current.Within whole)
    (hends : current.length = 0 ∨ current.start + current.length = here)
    (hbest : best.Within whole) : (longestRun gs here current best).Within whole := by
  -- the row that is left is a tail of the whole, whatever was met before it
  induction gs generalizing here current best with
  | nil => exact hbest
  | cons g rest ih =>
    have hrest : whole.drop (here + 1) = rest := by
      rw [← List.drop_drop, hgs]
      rfl
    have hhere : whole[here]? = some g := by
      have hfirst : (whole.drop here)[0]? = some g := by
        rw [hgs]
        rfl
      rwa [List.getElem?_drop, Nat.add_zero] at hfirst
    cases g with
    | succ g => exact ih hrest (fun i hi => absurd hi (Nat.not_lt_zero i)) (Or.inl rfl) hbest
    | zero =>
      rw [longestRun]
      -- the run that ends here, one group longer than before
      have hrun : (ZeroRun.mk (if current.length = 0 then here else current.start)
          (current.length + 1)).Within whole := by
        intro i hi
        dsimp only at hi ⊢
        rcases hends with hnone | hends
        · rw [if_pos hnone]
          have hzero : i = 0 := by omega
          rw [hzero, Nat.add_zero, hhere]
        · split
          · next hnone =>
            have hzero : i = 0 := by omega
            rw [hzero, Nat.add_zero, hhere]
          · by_cases hlast : i = current.length
            · rw [hlast, hends, hhere]
            · exact hcurrent i (by omega)
      refine ih hrest hrun (Or.inr ?_) ?_
      · dsimp only
        split <;> omega
      · by_cases hlonger : current.length + 1 > best.length
        · rw [if_pos hlonger]
          exact hrun
        · rw [if_neg hlonger]
          exact hbest

/-- A run of zeros may be cut out and zeros put in its place. -/
theorem ZeroRun.Within.eq_append {gs : List Nat} {r : ZeroRun} (h : r.Within gs) :
    gs.take r.start ++ List.replicate r.length 0 ++ gs.drop (r.start + r.length) = gs := by
  have hzeros : (gs.drop r.start).take r.length = List.replicate r.length 0 := by
    apply List.ext_getElem?
    intro i
    rw [List.getElem?_take, List.getElem?_replicate, List.getElem?_drop]
    split
    · next hi => exact h i hi
    · rfl
  rw [← hzeros, List.append_assoc, ← List.drop_drop, List.take_append_drop, List.take_append_drop]

theorem ZeroRun.Within.le_length {gs : List Nat} {r : ZeroRun} (h : r.Within gs)
    (hpos : 0 < r.length) : r.start + r.length ≤ gs.length := by
  obtain ⟨hlast, -⟩ := List.getElem?_eq_some_iff.mp (h (r.length - 1) (by omega))
  omega

/-! ## Groups in text -/

/-- Groups between colons. -/
def joined (gs : List Nat) : List Char := [':'].intercalate (gs.map hexDigits)

theorem toList_joinGroups (gs : List Nat) : (joinGroups gs).toList = joined gs := by
  have hpieces : (gs.map fun g => String.ofList (hexDigits g)).map String.toList
      = gs.map hexDigits := by simp
  rw [joinGroups, String.toList_intercalate, hpieces]
  rfl

theorem joined_singleton (g : Nat) : joined [g] = hexDigits g := List.intercalate_singleton

theorem joined_cons_cons (g next : Nat) (gs : List Nat) :
    joined (g :: next :: gs) = hexDigits g ++ ':' :: joined (next :: gs) := by
  rw [joined, List.map_cons, List.map_cons, List.intercalate_cons_cons, List.append_assoc]
  rfl

theorem hexDigits_ne_nil (g : Nat) : hexDigits g ≠ [] := Nat.toDigits_ne_nil

theorem colon_not_mem_hexDigits (g : Nat) : ':' ∉ hexDigits g := by
  intro h
  exact absurd (isHex_of_mem_hexDigits h) (by decide)

/-- The text of groups begins with a digit. -/
theorem exists_joined_cons (g : Nat) (gs : List Nat) :
    ∃ c rest, joined (g :: gs) = c :: rest ∧ c ≠ ':' := by
  obtain ⟨c, digits, hg⟩ := List.exists_cons_of_ne_nil (hexDigits_ne_nil g)
  have hc : c ≠ ':' := by
    rintro rfl
    exact colon_not_mem_hexDigits g (hg ▸ List.mem_cons_self)
  cases gs with
  | nil => exact ⟨c, digits, by rw [joined_singleton, hg], hc⟩
  | cons next gs => exact ⟨c, _, by rw [joined_cons_cons, hg, List.cons_append], hc⟩

theorem mem_joined {gs : List Nat} {c : Char} (h : c ∈ joined gs) : c = ':' ∨ isHex c = true := by
  induction gs with
  | nil => exact absurd h List.not_mem_nil
  | cons g gs ih =>
    cases gs with
    | nil =>
      rw [joined_singleton] at h
      exact Or.inr (isHex_of_mem_hexDigits h)
    | cons next gs =>
      rw [joined_cons_cons, List.mem_append, List.mem_cons] at h
      rcases h with h | h | h
      · exact Or.inr (isHex_of_mem_hexDigits h)
      · exact Or.inl h
      · exact ih h

theorem group?_hexDigits {g : Nat} (h : g < 0x10000) : group? (hexDigits g) = some g := by
  have hpos : 0 < (hexDigits g).length := Nat.length_toDigits_pos
  have hle : (hexDigits g).length ≤ 4 := (Nat.length_toDigits_le_iff (by omega) (by omega)).mpr h
  rw [group?, if_neg (by omega)]
  exact foldlM_hexDigits g

theorem pieces?_map_hexDigits (quad : Bool) {gs : List Nat} (h : ∀ g ∈ gs, g < 0x10000) :
    pieces? quad (gs.map hexDigits) = some gs := by
  induction gs with
  | nil => rfl
  | cons g gs ih =>
    have hg : group? (hexDigits g) = some g := group?_hexDigits (h g List.mem_cons_self)
    have hgs := ih fun x hx => h x (List.mem_cons_of_mem _ hx)
    cases gs with
    | nil => simp only [List.map_cons, List.map_nil, pieces?, hg]
    | cons next gs =>
      rw [List.map_cons] at hgs ⊢
      rw [List.map_cons, pieces?, hg, hgs]
      · rfl
      · simp

/-- The text of groups is cut into the groups. -/
theorem splitAt_joined {gs : List Nat} (h : gs ≠ []) :
    splitAt ':' (joined gs) = gs.map hexDigits := by
  refine splitAt_intercalate (by simpa using h) fun piece hpiece => ?_
  obtain ⟨g, -, rfl⟩ := List.mem_map.mp hpiece
  exact colon_not_mem_hexDigits g

theorem groupList?_joined (quad : Bool) {gs : List Nat} (h : ∀ g ∈ gs, g < 0x10000) :
    groupList? quad (joined gs) = some gs := by
  cases gs with
  | nil => rfl
  | cons g gs =>
    obtain ⟨c, rest, hjoined, -⟩ := exists_joined_cons g gs
    have hempty : (joined (g :: gs)).isEmpty = false := by
      rw [hjoined]
      rfl
    rw [groupList?, hempty, splitAt_joined (List.cons_ne_nil g gs)]
    exact pieces?_map_hexDigits quad h

/-! ## The gap -/

theorem splitGap?_cons_of_ne {c : Char} (hc : c ≠ ':') (s : List Char) :
    splitGap? (c :: s) = (splitGap? s).map fun (before, after) => (c :: before, after) := by
  rw [splitGap?]
  simp [hc]

/-- There is no gap before a text without colons is over. -/
theorem splitGap?_append_of_not_mem {s : List Char} (hs : ':' ∉ s) (t : List Char) :
    splitGap? (s ++ t) = (splitGap? t).map fun (before, after) => (s ++ before, after) := by
  induction s with
  | nil => simp
  | cons c s ih =>
    rw [List.mem_cons, not_or] at hs
    rw [List.cons_append, splitGap?_cons_of_ne (Ne.symm hs.1), ih hs.2, Option.map_map]
    rfl

/-- There is no gap at a colon that a digit follows. -/
theorem splitGap?_colon_cons {c : Char} (hc : c ≠ ':') (s : List Char) :
    splitGap? (':' :: c :: s) =
      (splitGap? (c :: s)).map fun (before, after) => (':' :: before, after) := by
  rw [splitGap?]
  simp [hc]

/-- Groups between colons have no gap. -/
theorem splitGap?_joined (gs : List Nat) : splitGap? (joined gs) = none := by
  induction gs with
  | nil => rfl
  | cons g gs ih =>
    cases gs with
    | nil =>
      have hgap := splitGap?_append_of_not_mem (colon_not_mem_hexDigits g) []
      rw [joined_singleton, ← List.append_nil (hexDigits g), hgap]
      rfl
    | cons next gs =>
      obtain ⟨c, rest, hjoined, hc⟩ := exists_joined_cons next gs
      rw [joined_cons_cons, splitGap?_append_of_not_mem (colon_not_mem_hexDigits g), hjoined,
        splitGap?_colon_cons hc, ← hjoined, ih]
      rfl

/-- A gap after groups between colons is found where it is. -/
theorem splitGap?_append_gap (gs : List Nat) (t : List Char) :
    splitGap? (joined gs ++ ':' :: ':' :: t) = some (joined gs, t) := by
  induction gs with
  | nil => rfl
  | cons g gs ih =>
    cases gs with
    | nil =>
      rw [joined_singleton, splitGap?_append_of_not_mem (colon_not_mem_hexDigits g), splitGap?]
      simp
    | cons next gs =>
      -- the colon after the first group is no gap, since a digit follows it
      obtain ⟨c, rest, hjoined, hc⟩ := exists_joined_cons next gs
      rw [joined_cons_cons, List.append_assoc, List.cons_append,
        splitGap?_append_of_not_mem (colon_not_mem_hexDigits g)]
      rw [hjoined, List.cons_append] at ih ⊢
      rw [splitGap?_colon_cons hc, ih]
      rfl

/-! ## The round trip -/

/-- The groups of an address in text, with a run of zeros cut out or not. -/
theorem toList_renderHex (a : Ipv6) :
    (renderHex a).toList = joined (groups a) ∨
      ∃ r : ZeroRun, r.Within (groups a) ∧ 2 ≤ r.length ∧
        (renderHex a).toList = joined ((groups a).take r.start) ++
          ':' :: ':' :: joined ((groups a).drop (r.start + r.length)) := by
  have hempty : (ZeroRun.mk 0 0).Within (groups a) := fun i hi => absurd hi (Nat.not_lt_zero i)
  have hwithin : (longestRun (groups a) 0 ⟨0, 0⟩ ⟨0, 0⟩).Within (groups a) :=
    longestRun_within rfl hempty (Or.inl rfl) hempty
  rw [renderHex]
  split
  · exact Or.inl (toList_joinGroups _)
  · next hlong =>
    refine Or.inr ⟨_, hwithin, by omega, ?_⟩
    rw [String.toList_append, String.toList_append, toList_joinGroups, toList_joinGroups,
      List.append_assoc]
    rfl

/-- The written form of an address is read as that address. -/
theorem parse?_renderHex (a : Ipv6) : parse? (renderHex a).toList = some a := by
  have hlt : ∀ g ∈ groups a, g < 0x10000 := fun g hg => lt_of_mem_groups hg
  rcases toList_renderHex a with h | ⟨r, hwithin, hlong, h⟩
  · have hne : groups a ≠ [] := List.ne_nil_of_length_pos (by rw [length_groups]; omega)
    rw [h, parse?, splitGap?_joined]
    simp only [splitAt_joined hne, pieces?_map_hexDigits true hlt, Option.bind_eq_bind,
      Option.bind_some, length_groups, if_true, ofGroups?_groups]
  · have hfront := groupList?_joined false fun g (hg : g ∈ (groups a).take r.start) =>
      hlt g (List.mem_of_mem_take hg)
    have hback := groupList?_joined true fun g (hg : g ∈ (groups a).drop (r.start + r.length)) =>
      hlt g (List.mem_of_mem_drop hg)
    have hle := hwithin.le_length (by omega)
    rw [length_groups] at hle
    -- what is left out is as long as the run
    have htake : ((groups a).take r.start).length = r.start := by
      rw [List.length_take, length_groups]
      omega
    have hdrop : ((groups a).drop (r.start + r.length)).length = 8 - (r.start + r.length) := by
      rw [List.length_drop, length_groups]
    have hgap : 8 - r.start - (8 - (r.start + r.length)) = r.length := by omega
    rw [h, parse?, splitGap?_append_gap]
    simp only [hfront, hback, Option.bind_eq_bind, Option.bind_some, htake, hdrop, hgap,
      hwithin.eq_append, ofGroups?_groups]
    rw [if_pos (by omega)]

/-- Every character of an address in text is a hexadecimal digit or a colon. -/
theorem mem_renderHex {a : Ipv6} {c : Char} (h : c ∈ (renderHex a).toList) :
    c = ':' ∨ isHex c = true := by
  rcases toList_renderHex a with he | ⟨r, -, -, he⟩
  · exact mem_joined (he ▸ h)
  · rw [he, List.mem_append, List.mem_cons, List.mem_cons] at h
    rcases h with h | h | h | h
    · exact mem_joined h
    · exact Or.inl h
    · exact Or.inl h
    · exact mem_joined h

/-- What is in the text of an address, perhaps with a dotted quad. -/
theorem mem_render {a : Ipv6} {c : Char} (h : c ∈ (render a).toList) :
    c = ':' ∨ c = '.' ∨ isHex c = true ∨ isDecimal c = true := by
  rw [render] at h
  split at h
  · rw [String.toList_append, List.mem_append] at h
    rcases h with h | h
    · have hfront : "::ffff:".toList.all (fun c => c == ':' || isHex c) = true := by decide
      have hc := List.all_eq_true.mp hfront c h
      rw [Bool.or_eq_true, beq_iff_eq] at hc
      exact hc.imp_right fun hc => Or.inr (Or.inl hc)
    · exact Or.inr ((Ipv4.mem_render h).imp_right Or.inr)
  · exact (mem_renderHex h).imp_right fun hc => Or.inr (Or.inl hc)

/-! ## The first group -/

/-- The first two octets of an address are its first group. -/
theorem groups_eq_cons (a : Ipv6) :
    ∃ hi lo bytes next gs, a.toList = hi :: lo :: bytes ∧
      groups a = (hi.toNat * 256 + lo.toNat) :: next :: gs := by
  obtain ⟨bytes, hlength⟩ := a
  obtain ⟨hi, bytes, rfl⟩ := List.exists_cons_of_length_eq_add_one hlength
  obtain ⟨lo, bytes, rfl⟩ := List.exists_cons_of_length_eq_add_one (Nat.succ.inj hlength)
  obtain ⟨b, bytes, rfl⟩ := List.exists_cons_of_length_eq_add_one
    (Nat.succ.inj (Nat.succ.inj hlength))
  obtain ⟨b', bytes, rfl⟩ := List.exists_cons_of_length_eq_add_one
    (Nat.succ.inj (Nat.succ.inj (Nat.succ.inj hlength)))
  exact ⟨hi, lo, _, _, _, rfl, rfl⟩

theorem exists_joined_append (g : Nat) (gs : List Nat) (t : List Char) :
    ∃ rest, joined (g :: gs) ++ ':' :: t = hexDigits g ++ ':' :: rest := by
  cases gs with
  | nil => exact ⟨t, by rw [joined_singleton]⟩
  | cons next gs =>
    exact ⟨_, by rw [joined_cons_cons, List.append_assoc, List.cons_append]⟩

/-- The text of an address begins with its first group, which is left out in front of a gap, and a
colon. -/
theorem exists_toList_render {a : Ipv6} {g next : Nat} {gs : List Nat}
    (h : groups a = g :: next :: gs) :
    ∃ digits rest, (render a).toList = digits ++ ':' :: rest ∧
      (digits = hexDigits g ∨ digits = [] ∧ g = 0) := by
  rw [render]
  split
  · next hquad =>
    rw [h] at hquad
    refine ⟨[], _, String.toList_append, Or.inr ⟨rfl, ?_⟩⟩
    exact (List.cons.inj hquad).1
  · rcases toList_renderHex a with he | ⟨r, hwithin, hlong, he⟩
    · rw [he, h, joined_cons_cons]
      exact ⟨_, _, rfl, Or.inl rfl⟩
    · rw [he]
      cases hstart : r.start with
      | zero =>
        have hzero := hwithin 0 (by omega)
        rw [h, hstart] at hzero
        exact ⟨[], _, rfl, Or.inr ⟨rfl, Option.some.inj hzero⟩⟩
      | succ n =>
        rw [h, List.take_succ_cons]
        obtain ⟨rest, hrest⟩ := exists_joined_append g ((next :: gs).take n)
          (':' :: joined ((g :: next :: gs).drop (n + 1 + r.length)))
        exact ⟨_, rest, hrest, Or.inl rfl⟩

/-- Four characters are all of a group that has four digits. -/
theorem take_hexDigits_iff {g n : Nat} (hg : g < 0x10000) (hn : (hexDigits n).length = 4)
    (t : List Char) : (hexDigits g ++ ':' :: t).take 4 = hexDigits n ↔ g = n := by
  have hle : (hexDigits g).length ≤ 4 := (Nat.length_toDigits_le_iff (by omega) (by omega)).mpr hg
  constructor
  · intro htake
    rcases Nat.lt_or_ge (hexDigits g).length 4 with hlt | hge
    · have hcolon : ':' ∈ (hexDigits g ++ ':' :: t).take 4 := by
        rw [List.take_append, List.take_cons (by omega)]
        exact List.mem_append_right _ List.mem_cons_self
      exact absurd (htake ▸ hcolon) (colon_not_mem_hexDigits n)
    · rw [List.take_append_of_le_length hge, List.take_of_length_le hle] at htake
      have hvalue := foldlM_hexDigits g
      rw [htake, foldlM_hexDigits] at hvalue
      exact (Option.some.inj hvalue).symm
  · rintro rfl
    rw [List.take_append_of_le_length (Nat.le_of_eq hn.symm), List.take_of_length_le hle]

end MeshNode.Ipv6
