import MeshNode.Proofs.Json.RoundTrip
import Mathlib.Data.String.Basic

/-!
# The shape of values that are read

Whatever a text spells is nested no deeper than the reader goes, and the members of its objects
stand in the order of their names; so it can be written and read once more if only its numbers can.

* **shape** — `Shaped`; `Occurs`, and `legible_of_shaped`: what numbers add;
* **members** — `Ordered.insertMember`;
* **one token** — `Sound`, what holds of a reader; `Sound.step`;
* **a text** — `shaped_of_parse?`, `legible_of_parse?`.
-/

namespace MeshNode.Json

/-! ## Shape -/

/-- Whether a value has at most so many levels and its objects their members in order. -/
inductive Shaped : Nat → Json → Prop
  | null {depth : Nat} : Shaped depth .null
  | bool {depth : Nat} (b : Bool) : Shaped depth (.bool b)
  | num {depth : Nat} (x : JsonNumber) : Shaped depth (.num x)
  | str {depth : Nat} (s : String) : Shaped depth (.str s)
  | arr {depth : Nat} {items : List Json} : (∀ v ∈ items, Shaped depth v) →
    Shaped (depth + 1) (.arr items)
  | obj {depth : Nat} {members : List (String × Json)} : members.Pairwise (·.1 < ·.1) →
    (∀ m ∈ members, Shaped depth m.2) → Shaped (depth + 1) (.obj members)

/-- Whether a number occurs in a value. -/
inductive Occurs (x : JsonNumber) : Json → Prop
  | num : Occurs x (.num x)
  | item {v : Json} {items : List Json} : v ∈ items → Occurs x v → Occurs x (.arr items)
  | member {m : String × Json} {members : List (String × Json)} : m ∈ members → Occurs x m.2 →
    Occurs x (.obj members)

theorem legible_of_shaped {depth : Nat} {v : Json} (h : Shaped depth v)
    (hnumbers : ∀ x, Occurs x v → Numeral.read? (numberText x) = some x) : Legible depth v := by
  induction h with
  | null => exact .null
  | bool b => exact .bool b
  | num x => exact .num (hnumbers x .num)
  | str s => exact .str s
  | arr _ ih => exact .arr fun v hv => ih v hv fun x hx => hnumbers x (.item hv hx)
  | obj hsorted _ ih =>
    exact .obj hsorted fun m hm => ih m hm fun x hx => hnumbers x (.member hm hx)

/-! ## Members -/

/-- Members in order, of at most so many levels each. -/
structure Ordered (depth : Nat) (members : List (String × Json)) : Prop where
  sorted : members.Pairwise (·.1 < ·.1)
  shaped : ∀ m ∈ members, Shaped depth m.2

theorem mem_insertMember {name : String} {v : Json} {members : List (String × Json)}
    {m : String × Json} (h : m ∈ insertMember name v members) : m = (name, v) ∨ m ∈ members := by
  induction members with
  | nil => exact Or.inl (List.mem_singleton.mp h)
  | cons first rest ih =>
    rw [insertMember] at h
    split at h
    · exact List.mem_cons.mp h
    · split at h
      · rcases List.mem_cons.mp h with h | h
        · exact Or.inl h
        · exact Or.inr (List.mem_cons_of_mem first h)
      · rcases List.mem_cons.mp h with rfl | h
        · exact Or.inr List.mem_cons_self
        · rcases ih h with h | h
          · exact Or.inl h
          · exact Or.inr (List.mem_cons_of_mem first h)

theorem sorted_insertMember {name : String} {v : Json} {members : List (String × Json)}
    (h : members.Pairwise (·.1 < ·.1)) : (insertMember name v members).Pairwise (·.1 < ·.1) := by
  induction members with
  | nil => exact List.pairwise_singleton _ _
  | cons first rest ih =>
    obtain ⟨hfirst, hrest⟩ := List.pairwise_cons.mp h
    rw [insertMember]
    split
    · next hlt =>
      refine List.pairwise_cons.mpr ⟨fun m hm => ?_, h⟩
      rcases List.mem_cons.mp hm with rfl | hm
      · exact hlt
      · exact lt_trans hlt (hfirst m hm)
    · next hge =>
      split
      · next heq => exact List.pairwise_cons.mpr ⟨fun m hm => heq ▸ hfirst m hm, hrest⟩
      · next hne =>
        refine List.pairwise_cons.mpr ⟨fun m hm => ?_, ih hrest⟩
        rcases mem_insertMember hm with rfl | hm
        · exact lt_of_le_of_ne (not_lt.mp hge) (Ne.symm hne)
        · exact hfirst m hm

theorem Ordered.insertMember {depth : Nat} {members : List (String × Json)}
    (h : Ordered depth members) {v : Json} (hv : Shaped depth v) (name : String) :
    Ordered depth (insertMember name v members) := by
  refine ⟨sorted_insertMember h.sorted, fun m hm => ?_⟩
  rcases mem_insertMember hm with rfl | hm
  · exact hv
  · exact h.shaped m hm

/-! ## One token -/

/-- Whether what is open is no more than may be open, and what has been read of it has shape. -/
inductive Stacked : List Frame → Prop
  | nil : Stacked []
  | array {items : List Json} {outer : List Frame} {depth : Nat} :
    outer.length + 1 + depth = Reader.maxDepth → (∀ v ∈ items, Shaped depth v) → Stacked outer →
    Stacked (.array items :: outer)
  | object {members : List (String × Json)} {name : String} {outer : List Frame} {depth : Nat} :
    outer.length + 1 + depth = Reader.maxDepth → Ordered depth members → Stacked outer →
    Stacked (.object members name :: outer)

/-- Whether the members that a reader keeps for an object it is in have shape. -/
inductive Kept (level : Nat) : Need → Prop
  | value : Kept level .value
  | valueOrClose : Kept level .valueOrClose
  | nameOrClose {members : List (String × Json)} {depth : Nat} :
    level + 1 + depth = Reader.maxDepth → Ordered depth members → Kept level (.nameOrClose members)
  | name {members : List (String × Json)} {depth : Nat} :
    level + 1 + depth = Reader.maxDepth → Ordered depth members → Kept level (.name members)
  | colon : Kept level .colon
  | commaOrClose : Kept level .commaOrClose
  | done {v : Json} : Shaped Reader.maxDepth v → Kept level (.done v)

/-- What holds of a reader between two tokens. -/
structure Sound (r : Reader) : Prop where
  stacked : Stacked r.stack
  kept : Kept r.stack.length r.need

theorem sound_complete {v : Json} {stack : List Frame} {depth : Nat} (h : Stacked stack)
    (hdepth : stack.length + depth = Reader.maxDepth) (hv : Shaped depth v) :
    Sound (Reader.complete v stack) := by
  cases h with
  | nil =>
    rw [List.length_nil, Nat.zero_add] at hdepth
    exact ⟨.nil, .done (hdepth ▸ hv)⟩
  | @array items outer depth' hlevel hitems houter =>
    rw [List.length_cons] at hdepth
    obtain rfl : depth = depth' := by omega
    refine ⟨.array hlevel (fun w hw => ?_) houter, .commaOrClose⟩
    rcases List.mem_cons.mp hw with rfl | hw
    · exact hv
    · exact hitems w hw
  | @object members name outer depth' hlevel hmembers houter =>
    rw [List.length_cons] at hdepth
    obtain rfl : depth = depth' := by omega
    exact ⟨.object hlevel (hmembers.insertMember hv name) houter, .commaOrClose⟩

theorem Stacked.length_le {stack : List Frame} (h : Stacked stack) :
    stack.length ≤ Reader.maxDepth := by
  cases h with
  | nil => exact Nat.zero_le _
  | array hlevel _ _ => exact Nat.le.intro hlevel
  | object hlevel _ _ => exact Nat.le.intro hlevel

variable {r r' : Reader} {t : Token} {stack : List Frame}

theorem sound_beginValue (h : Stacked stack) (ht : ∀ v, t = .scalar v → ∀ depth, Shaped depth v)
    (hr : Reader.beginValue stack t = some r) : Sound r := by
  obtain ⟨depth, hdepth⟩ := Nat.le.dest h.length_le
  unfold Reader.beginValue at hr
  split at hr
  · next v =>
    cases hr
    exact sound_complete h hdepth (ht v rfl depth)
  · next text =>
    cases hr
    exact sound_complete h hdepth (.str text)
  · split at hr
    · next hlt =>
      obtain ⟨below, hbelow⟩ := Nat.le.dest (Nat.succ_le_of_lt hlt)
      cases hr
      exact ⟨.array hbelow (fun _ hv => absurd hv List.not_mem_nil) h, .valueOrClose⟩
    · cases hr
  · split at hr
    · next hlt =>
      obtain ⟨below, hbelow⟩ := Nat.le.dest (Nat.succ_le_of_lt hlt)
      cases hr
      exact ⟨h, .nameOrClose hbelow ⟨.nil, fun _ hm => absurd hm List.not_mem_nil⟩⟩
    · cases hr
  · cases hr

theorem shaped_array {items : List Json} {outer : List Frame}
    (h : Stacked (.array items :: outer)) :
    Stacked outer ∧ ∃ depth, outer.length + depth = Reader.maxDepth ∧
      Shaped depth (.arr items.reverse) := by
  cases h with
  | @array _ _ depth hlevel hitems houter =>
    exact ⟨houter, depth + 1, by omega, .arr fun v hv => hitems v (List.mem_reverse.mp hv)⟩

theorem shaped_object {members : List (String × Json)} {level depth : Nat}
    (hlevel : level + 1 + depth = Reader.maxDepth) (h : Ordered depth members) :
    ∃ depth, level + depth = Reader.maxDepth ∧ Shaped depth (.obj members) :=
  ⟨depth + 1, by omega, .obj h.sorted h.shaped⟩

/-- A token keeps what holds of a reader. -/
theorem Sound.step (h : Sound r) (ht : ∀ v, t = .scalar v → ∀ depth, Shaped depth v)
    (hr : r.step t = some r') : Sound r' := by
  obtain ⟨stack, need⟩ := r
  obtain ⟨hstack, hneed⟩ := h
  cases hneed with
  | value => exact sound_beginValue hstack ht hr
  | valueOrClose =>
    -- unless the array ends here, this begins its first item
    cases t with
    | arrayClose =>
      cases stack with
      | nil => cases hr
      | cons frame outer =>
        cases frame with
        | object members name => cases hr
        | array items =>
          cases hr
          obtain ⟨houter, depth, hdepth, hv⟩ := shaped_array hstack
          exact sound_complete houter hdepth hv
    | _ => exact sound_beginValue hstack ht hr
  | nameOrClose hlevel hmembers =>
    cases t with
    | objectClose =>
      cases hr
      obtain ⟨depth, hdepth, hv⟩ := shaped_object hlevel hmembers
      exact sound_complete hstack hdepth hv
    | text name =>
      cases hr
      exact ⟨.object hlevel hmembers hstack, .colon⟩
    | _ => cases hr
  | name hlevel hmembers =>
    cases t with
    | text name =>
      cases hr
      exact ⟨.object hlevel hmembers hstack, .colon⟩
    | _ => cases hr
  | colon =>
    cases t with
    | colon =>
      cases hr
      exact ⟨hstack, .value⟩
    | _ => cases hr
  | commaOrClose =>
    cases hstack with
    | nil => cases t <;> cases hr
    | array hlevel hitems houter =>
      cases t with
      | comma =>
        cases hr
        exact ⟨.array hlevel hitems houter, .value⟩
      | arrayClose =>
        cases hr
        obtain ⟨houter, depth, hdepth, hv⟩ := shaped_array (.array hlevel hitems houter)
        exact sound_complete houter hdepth hv
      | _ => cases hr
    | object hlevel hmembers houter =>
      cases t with
      | comma =>
        cases hr
        exact ⟨houter, .name hlevel hmembers⟩
      | objectClose =>
        cases hr
        obtain ⟨depth, hdepth, hv⟩ := shaped_object hlevel hmembers
        exact sound_complete houter hdepth hv
      | _ => cases hr
  | done _ => cases t <;> cases hr

/-- A scalar is no array and no object. -/
theorem shaped_of_token? {s rest : List Char} {v : Json} (h : token? s = some (.scalar v, rest))
    (depth : Nat) : Shaped depth v := by
  unfold token? at h
  split at h
  case h_8 => cases h; exact .null
  case h_9 => cases h; exact .bool true
  case h_10 => cases h; exact .bool false
  case h_11 =>
    simp only [Option.bind_eq_bind, Option.bind_eq_some_iff] at h
    obtain ⟨_, -, x, -, h⟩ := h
    cases h
    exact .num x
  case h_7 =>
    obtain ⟨_, -, h⟩ := Option.map_eq_some_iff.mp h
    cases h
  all_goals cases h

/-! ## A text -/

theorem scalars_of_tokensFrom {acc ts : List Token} {fuel : Nat} {s : List Char}
    (h : tokensFrom acc fuel s = some ts)
    (hacc : ∀ v, .scalar v ∈ acc → ∀ depth, Shaped depth v) :
    ∀ v, .scalar v ∈ ts → ∀ depth, Shaped depth v := by
  induction fuel generalizing acc s with
  | zero =>
    unfold tokensFrom at h
    split at h
    · cases h
      exact hacc
    · cases h
  | succ fuel ih =>
    unfold tokensFrom at h
    split at h
    · cases h
      exact hacc
    · dsimp only at h
      split at h
      · next t rest htoken =>
        refine ih h fun v hv => ?_
        rcases List.mem_cons.mp hv with rfl | hv
        · exact shaped_of_token? htoken
        · exact hacc v hv
      · cases h

theorem sound_foldlM {ts : List Token} (h : Sound r)
    (hts : ∀ v, .scalar v ∈ ts → ∀ depth, Shaped depth v)
    (hr : ts.foldlM Reader.step r = some r') : Sound r' := by
  induction ts generalizing r with
  | nil =>
    cases hr
    exact h
  | cons t ts ih =>
    rw [List.foldlM_cons, Option.bind_eq_bind, Option.bind_eq_some_iff] at hr
    obtain ⟨next, hnext, hr⟩ := hr
    refine ih (h.step (fun v hv => ?_) hnext) (fun v hv => hts v (List.mem_cons_of_mem t hv)) hr
    exact hts v (hv ▸ List.mem_cons_self)

/-- Whatever a text spells has shape. -/
theorem shaped_of_parse? {s : List Char} {v : Json} (h : parse? s = some v) :
    Shaped Reader.maxDepth v := by
  simp only [parse?, Option.bind_eq_bind, Option.bind_eq_some_iff] at h
  obtain ⟨ts, hts, r, hr, hv⟩ := h
  obtain ⟨reversed, hreversed, rfl⟩ := Option.map_eq_some_iff.mp hts
  have hscalars : ∀ v, .scalar v ∈ reversed.reverse → ∀ depth, Shaped depth v := fun v hmem =>
    scalars_of_tokensFrom hreversed (fun _ hacc => absurd hacc List.not_mem_nil) v
      (List.mem_reverse.mp hmem)
  have hsound : Sound r := sound_foldlM ⟨.nil, .value⟩ hscalars hr
  obtain ⟨stack, need⟩ := r
  cases hsound.kept with
  | done hshaped =>
    cases hv
    exact hshaped
  | _ => cases hv

/-- So it can be read once more if its numbers can. -/
theorem legible_of_parse? {s : List Char} {v : Json} (h : parse? s = some v)
    (hnumbers : ∀ x, Occurs x v → Numeral.read? (numberText x) = some x) :
    Legible Reader.maxDepth v :=
  legible_of_shaped (shaped_of_parse? h) hnumbers

end MeshNode.Json
