import MeshNode.Json.Reader
import MeshNode.Proofs.Json.Numerals

/-!
# JSON, written and read back

A value is read back from its compact form and from its pretty form, if all its numbers are and it
is not nested too deeply.

* **such values** — `Legible`;
* **texts** — `readText_flatMap`: each character is read back from its escape;
* **reading step by step** — `Reads`: what is left of a text takes a reader to a value;
  `parse?_of_reads`;
* **forms of values** — `Carries`: a text takes a reader past a value, wherever it stands;
  `carries_array` and `carries_object` for any white space between the parts;
* **both forms** — `carries_forms`; `parse?_compact` and `parse?_prettyAt`.
-/

namespace MeshNode.Json

open MeshNode.Numeral

/-! ## Values that can be read back -/

/-- Whether a value of at most so many levels can be read back: each of its numbers is, and the
members of its objects stand in the order of their names. -/
inductive Legible : Nat → Json → Prop
  | null {depth : Nat} : Legible depth .null
  | bool {depth : Nat} (b : Bool) : Legible depth (.bool b)
  | num {depth : Nat} {x : JsonNumber} : read? (numberText x) = some x → Legible depth (.num x)
  | str {depth : Nat} (s : String) : Legible depth (.str s)
  | arr {depth : Nat} {items : List Json} : (∀ v ∈ items, Legible depth v) →
    Legible (depth + 1) (.arr items)
  | obj {depth : Nat} {members : List (String × Json)} : members.Pairwise (·.1 < ·.1) →
    (∀ m ∈ members, Legible depth m.2) → Legible (depth + 1) (.obj members)

/-! ## Texts -/

/-- Each character is read back from what is written for it. -/
theorem readText_textChar (acc : List Char) (c : Char) (tail : List Char) :
    readText acc (textChar c ++ tail) = readText (c :: acc) tail := by
  unfold textChar
  split
  · rfl
  · rfl
  · rfl
  · rfl
  · rfl
  · rfl
  · rfl
  · next hquote hback _ _ _ _ _ =>
    split
    · next hcontrol =>
      have hunit : ∀ n : Fin 32, unit? '0' '0' (Text.hexChar (n.val / 16))
          (Text.hexChar (n.val % 16)) = some n.val := by decide
      have hhigh : ¬ (0xd800 ≤ c.toNat ∧ c.toNat < 0xdc00) := by omega
      have hlow : ¬ (0xdc00 ≤ c.toNat ∧ c.toNat < 0xe000) := by omega
      simp only [List.cons_append, List.nil_append]
      rw [readText, hunit ⟨c.toNat, hcontrol⟩]
      simp only [hhigh, hlow, if_false, Char.ofNat_toNat]
    · next hplain =>
      rw [List.singleton_append, readText]
      · rw [if_neg hplain]
      · exact hquote
      · rintro _ _ _ _ _ rfl
        exact absurd rfl hback
      · rintro _ _ rfl
        exact absurd rfl hback

theorem readText_flatMap (s : List Char) (acc rest : List Char) :
    readText acc (s.flatMap textChar ++ '"' :: rest) =
      some (String.ofList (acc.reverse ++ s), rest) := by
  induction s generalizing acc with
  | nil =>
    rw [List.flatMap_nil, List.nil_append, readText, List.append_nil]
  | cons c s ih =>
    rw [List.flatMap_cons, List.append_assoc, readText_textChar, ih, List.reverse_cons,
      List.append_assoc]
    rfl

theorem token?_text (s : String) (rest : List Char) :
    token? (textChars s ++ rest) = some (.text s, rest) := by
  have hquote : textChars s ++ rest = '"' :: (s.toList.flatMap textChar ++ '"' :: rest) := by
    rw [textChars, List.cons_append, List.cons_append, List.append_assoc]
    rfl
  rw [hquote, token?, readText_flatMap]
  simp only [List.reverse_nil, List.nil_append, String.ofList_toList, Option.map_some]

/-! ## Reading step by step -/

/-- Whether what is left of a text takes a reader to a value. -/
inductive Reads (out : Json) : List Char → Reader → Prop
  | done {r : Reader} : r.result? = some out → Reads out [] r
  | space {c : Char} {s : List Char} {r : Reader} : isSpace c = true → Reads out s r →
    Reads out (c :: s) r
  | token {front rest : List Char} {t : Token} {r r' : Reader} : front ≠ [] →
    token? (front ++ rest) = some (t, rest) → r.step t = some r' → Reads out rest r' →
    Reads out (front ++ rest) r

variable {out : Json} {s more gap : List Char} {stack : List Frame} {r r' : Reader} {t : Token}

theorem token?_space {c : Char} (h : isSpace c = true) (s : List Char) :
    token? (c :: s) = none := by
  simp only [isSpace, Bool.or_eq_true, beq_iff_eq] at h
  rcases h with ((rfl | rfl) | rfl) | rfl <;> rfl

theorem tokensFrom_congr {acc : List Token} {fuel : Nat} {s' : List Char}
    (h : s.dropWhile isSpace = s'.dropWhile isSpace) :
    tokensFrom acc fuel s = tokensFrom acc fuel s' := by
  rw [tokensFrom, tokensFrom, h]

/-- The tokens of a text are those that take the reader there. -/
theorem Reads.tokensFrom (h : Reads out s r) {fuel : Nat} (hfuel : s.length ≤ fuel)
    (acc : List Token) : ∃ ts : List Token, Json.tokensFrom acc fuel s = some (ts.reverse ++ acc) ∧
      ∃ r' : Reader, ts.foldlM Reader.step r = some r' ∧ r'.result? = some out := by
  induction h generalizing fuel acc with
  | done hr =>
    refine ⟨[], ?_, _, rfl, hr⟩
    rw [Json.tokensFrom]
    rfl
  | @space c s r hc _ ih =>
    obtain ⟨ts, hts, hout⟩ := ih (Nat.le_trans (Nat.le_succ _) hfuel) acc
    refine ⟨ts, ?_, hout⟩
    rw [← hts]
    exact tokensFrom_congr (List.dropWhile_cons_of_pos hc)
  | @token front rest t r r' hfront htoken hstep _ ih =>
    -- a token takes at least one character, and so needs no more than one unit of fuel
    obtain ⟨c, front, rfl⟩ := List.exists_cons_of_ne_nil hfront
    obtain ⟨fuel, rfl⟩ : ∃ n, fuel = n + 1 := ⟨fuel - 1, by simp at hfuel; omega⟩
    obtain ⟨ts, hts, r', hfold, hout⟩ := @ih fuel (by simp at hfuel; omega) (t :: acc)
    refine ⟨t :: ts, ?_, r', ?_, hout⟩
    · have hfirst : isSpace c ≠ true := by
        intro hc
        rw [List.cons_append, token?_space hc] at htoken
        cases htoken
      rw [Json.tokensFrom, List.cons_append, List.dropWhile_cons_of_neg hfirst]
      rw [List.cons_append] at htoken
      simp only [htoken, hts, List.reverse_cons, List.append_assoc, List.singleton_append]
    · rw [List.foldlM_cons, hstep]
      exact hfold

theorem parse?_of_reads (h : Reads out s Reader.start) : parse? s = some out := by
  obtain ⟨ts, hts, r', hfold, hout⟩ := h.tokensFrom (Nat.le_refl _) []
  rw [List.append_nil] at hts
  have htokens : tokens? s = some ts := by
    rw [tokens?, hts, Option.map_some, List.reverse_reverse]
  simp only [parse?, htokens, Option.bind_eq_bind, Option.bind_some, hfold, hout]

theorem Reads.spaces (hgap : gap.all isSpace = true) (h : Reads out s r) :
    Reads out (gap ++ s) r := by
  induction gap with
  | nil => exact h
  | cons c gap ih =>
    rw [List.all_cons, Bool.and_eq_true] at hgap
    exact .space hgap.1 (ih hgap.2)

/-- A token of one character. -/
theorem Reads.mark {c : Char} (htoken : token? (c :: s) = some (t, s)) (hstep : r.step t = some r')
    (h : Reads out s r') : Reads out (c :: s) r :=
  @Reads.token out [c] s t r r' (List.cons_ne_nil _ _) htoken hstep h

/-- What begins with a value may also stand where an array may end. -/
theorem Reads.orClose (h : Reads out s ⟨stack, .value⟩) : Reads out s ⟨stack, .valueOrClose⟩ := by
  generalize hr : (⟨stack, .value⟩ : Reader) = r at h
  induction h with
  | done hout =>
    subst hr
    cases hout
  | space hc _ ih => exact .space hc (ih hr)
  | @token front rest t r r' hfront htoken hstep h _ =>
    subst hr
    have hbegin : Reader.beginValue stack t = some r' := hstep
    refine .token hfront htoken ?_ h
    cases t with
    | arrayClose => cases hbegin
    | _ => exact hbegin

/-- The same for the first name of an object. -/
theorem Reads.orCloseName {members : List (String × Json)}
    (h : Reads out s ⟨stack, .name members⟩) : Reads out s ⟨stack, .nameOrClose members⟩ := by
  generalize hr : (⟨stack, .name members⟩ : Reader) = r at h
  induction h with
  | done hout =>
    subst hr
    cases hout
  | space hc _ ih => exact .space hc (ih hr)
  | @token front rest t r r' hfront htoken hstep h _ =>
    subst hr
    refine .token hfront htoken ?_ h
    cases t with
    | text name => exact hstep
    | _ => cases hstep

/-- A name behind all others comes last. -/
theorem insertMember_of_lt {name : String} {v : Json} {members : List (String × Json)}
    (h : ∀ m ∈ members, m.1 < name) : insertMember name v members = members ++ [(name, v)] := by
  induction members with
  | nil => rfl
  | cons m rest ih =>
    have hlt := h m List.mem_cons_self
    have hne : name ≠ m.1 := fun heq => String.lt_irrefl _ (heq ▸ hlt)
    rw [insertMember, if_neg (String.lt_asymm hlt), if_neg hne,
      ih fun m hm => h m (List.mem_cons_of_mem _ hm), List.cons_append]

/-! ## Forms of values -/

/-- Whether a text takes a reader past a value of at most so many levels, wherever a value may stand
and whatever follows, unless a numeral could go on with that. -/
def Carries (depth : Nat) (text : List Char) (v : Json) : Prop :=
  ∀ (out : Json) (more : List Char) (stack : List Frame), stack.length + depth ≤ Reader.maxDepth →
    Ends more = true → Reads out more (Reader.complete v stack) →
    Reads out (text ++ more) ⟨stack, .value⟩

/-- An array may be opened wherever one more level still fits. -/
theorem beginValue_arrayOpen {depth : Nat} (h : stack.length + (depth + 1) ≤ Reader.maxDepth) :
    Reader.beginValue stack .arrayOpen = some ⟨.array [] :: stack, .valueOrClose⟩ :=
  if_pos (by omega)

theorem beginValue_objectOpen {depth : Nat} (h : stack.length + (depth + 1) ≤ Reader.maxDepth) :
    Reader.beginValue stack .objectOpen = some ⟨stack, .nameOrClose []⟩ :=
  if_pos (by omega)

theorem carries_of_token {depth : Nat} {text : List Char} {v : Json} (hne : text ≠ [])
    (htoken : ∀ more, Ends more = true → ∃ t, token? (text ++ more) = some (t, more) ∧
      ∀ stack, Reader.beginValue stack t = some (Reader.complete v stack)) :
    Carries depth text v := by
  intro out more stack _ hends hmore
  obtain ⟨t, ht, hbegin⟩ := htoken more hends
  exact .token hne ht (hbegin stack) hmore

/-- What is written for several things: each on its own line if there is a gap, with commas between
them. -/
def rows {α : Type} (gap : List Char) (text : α → List Char) : List α → List Char
  | [] => []
  | [a] => gap ++ text a
  | a :: rest => gap ++ text a ++ ',' :: rows gap text rest

theorem ends_gap (hgap : gap.all isSpace = true) {c : Char} (hc : Ends (c :: s) = true) :
    Ends (gap ++ c :: s) = true := by
  cases gap with
  | nil => exact hc
  | cons d gap =>
    rw [List.all_cons, Bool.and_eq_true] at hgap
    have hd := hgap.1
    simp only [isSpace, Bool.or_eq_true, beq_iff_eq] at hd
    rcases hd with ((rfl | rfl) | rfl) | rfl <;> rfl

theorem rows_cons_cons {α : Type} (gap : List Char) (text : α → List Char) (a b : α)
    (rest : List α) : rows gap text (a :: b :: rest) =
      gap ++ text a ++ ',' :: rows gap text (b :: rest) := by
  rw [rows]
  exact List.cons_ne_nil b rest

section Rows

variable {depth : Nat} {inner outer : List Char} (hinner : inner.all isSpace = true)
  (houter : outer.all isSpace = true)

include hinner houter

/-- Items are taken one after the other, with what has been taken before in front of them. -/
theorem reads_items {text : Json → List Char} {items : List Json} (hne : items ≠ [])
    (htext : ∀ v ∈ items, Carries depth (text v) v)
    (hdepth : stack.length + 1 + depth ≤ Reader.maxDepth) (taken : List Json)
    (hmore : Reads out more (Reader.complete (.arr (taken.reverse ++ items)) stack)) :
    Reads out (rows inner text items ++ (outer ++ ']' :: more))
      ⟨.array taken :: stack, .value⟩ := by
  induction items generalizing taken with
  | nil => exact absurd rfl hne
  | cons v rest ih =>
    have hfirst := htext v List.mem_cons_self out
    cases rest with
    | nil =>
      -- the bracket comes right after the last item
      rw [rows, List.append_assoc]
      refine .spaces hinner (hfirst _ _ hdepth (ends_gap houter rfl) (.spaces houter ?_))
      refine .mark rfl rfl ?_
      rw [List.reverse_cons]
      exact hmore
    | cons next rest =>
      have hrest := ih (List.cons_ne_nil _ _) (fun v hv => htext v (List.mem_cons_of_mem _ hv))
        (v :: taken) (by rw [List.reverse_cons, List.append_assoc]; exact hmore)
      rw [rows_cons_cons, List.append_assoc, List.append_assoc, List.cons_append]
      exact .spaces hinner (hfirst _ _ hdepth rfl (.mark rfl rfl hrest))

theorem carries_array {text : Json → List Char} {items : List Json} (hne : items ≠ [])
    (htext : ∀ v ∈ items, Carries depth (text v) v) :
    Carries (depth + 1) ('[' :: rows inner text items ++ outer ++ [']']) (.arr items) := by
  intro out more stack hdepth _ hmore
  have hopen := beginValue_arrayOpen hdepth
  rw [List.append_assoc, List.append_assoc, List.cons_append]
  refine .mark rfl hopen (.orClose ?_)
  exact reads_items hinner houter hne htext (by omega) [] hmore

/-- What is written for one member. -/
def memberText (pad : List Char) (text : Json → List Char) (m : String × Json) : List Char :=
  textChars m.1 ++ ':' :: (pad ++ text m.2)

/-- Members in the order of their names are taken one after the other. -/
theorem reads_members {pad : List Char} (hpad : pad.all isSpace = true) {text : Json → List Char}
    {members : List (String × Json)} (hne : members ≠ [])
    (htext : ∀ m ∈ members, Carries depth (text m.2) m.2)
    (hdepth : stack.length + 1 + depth ≤ Reader.maxDepth) (taken : List (String × Json))
    (hsorted : (taken ++ members).Pairwise (·.1 < ·.1))
    (hmore : Reads out more (Reader.complete (.obj (taken ++ members)) stack)) :
    Reads out (rows inner (memberText pad text) members ++ (outer ++ '\x7d' :: more))
      ⟨stack, .name taken⟩ := by
  induction members generalizing taken with
  | nil => exact absurd rfl hne
  | cons m rest ih =>
    obtain ⟨name, v⟩ := m
    have hfirst := htext (name, v) List.mem_cons_self out
    have hinsert : insertMember name v taken = taken ++ [(name, v)] :=
      insertMember_of_lt fun m hm => (List.pairwise_append.mp hsorted).2.2 m hm _ List.mem_cons_self
    -- the name, the colon and the value, up to the state behind it
    have hmember : ∀ tail, Ends tail = true →
        Reads out tail ⟨.object (taken ++ [(name, v)]) name :: stack, .commaOrClose⟩ →
        Reads out (inner ++ memberText pad text (name, v) ++ tail) ⟨stack, .name taken⟩ := by
      intro tail hends htail
      rw [memberText, List.append_assoc, List.append_assoc, List.cons_append, List.append_assoc]
      refine .spaces hinner (.token (List.cons_ne_nil _ _) (token?_text name _) rfl ?_)
      refine .mark rfl rfl (.spaces hpad (hfirst tail _ hdepth hends ?_))
      rw [Reader.complete, hinsert]
      exact htail
    cases rest with
    | nil =>
      rw [rows]
      exact hmember _ (ends_gap houter rfl) (.spaces houter (.mark rfl rfl hmore))
    | cons next rest =>
      have hsame : taken ++ (name, v) :: next :: rest = taken ++ [(name, v)] ++ next :: rest := by
        rw [List.append_assoc, List.singleton_append]
      have hrest := ih (List.cons_ne_nil _ _) (fun m hm => htext m (List.mem_cons_of_mem _ hm))
        (taken ++ [(name, v)]) (hsame ▸ hsorted) (hsame ▸ hmore)
      rw [rows_cons_cons, List.append_assoc, List.cons_append]
      exact hmember _ rfl (.mark rfl rfl hrest)

theorem carries_object {pad : List Char} (hpad : pad.all isSpace = true) {text : Json → List Char}
    {members : List (String × Json)} (hne : members ≠ [])
    (htext : ∀ m ∈ members, Carries depth (text m.2) m.2)
    (hsorted : members.Pairwise (·.1 < ·.1)) :
    Carries (depth + 1) ('\x7b' :: rows inner (memberText pad text) members ++ outer ++ ['\x7d'])
      (.obj members) := by
  intro out more stack hdepth _ hmore
  have hopen := beginValue_objectOpen hdepth
  rw [List.append_assoc, List.append_assoc, List.cons_append]
  refine .mark rfl hopen (.orCloseName ?_)
  exact reads_members hinner houter hpad hne htext (by omega) [] hsorted hmore

end Rows

/-! ## Both forms -/

theorem compactItems_eq (items : List Json) : compactItems items = rows [] compact items := by
  induction items with
  | nil => rfl
  | cons v rest ih =>
    cases rest with
    | nil => rfl
    | cons next rest =>
      rw [compactItems, ih, rows_cons_cons, List.nil_append]
      exact List.cons_ne_nil next rest

theorem prettyItems_eq (depth : Nat) (items : List Json) :
    prettyItems depth items = rows (newline depth) (prettyAt depth) items := by
  induction items with
  | nil => rfl
  | cons v rest ih =>
    cases rest with
    | nil => rfl
    | cons next rest =>
      rw [prettyItems, ih, rows_cons_cons]
      exact List.cons_ne_nil next rest

theorem compactMembers_eq (members : List (String × Json)) :
    compactMembers members = rows [] (memberText [] compact) members := by
  induction members with
  | nil => rfl
  | cons m rest ih =>
    cases rest with
    | nil => rfl
    | cons next rest =>
      rw [compactMembers, ih, rows_cons_cons, List.nil_append]
      · rfl
      · exact List.cons_ne_nil next rest

theorem prettyMembers_eq (depth : Nat) (members : List (String × Json)) :
    prettyMembers depth members =
      rows (newline depth) (memberText [' '] (prettyAt depth)) members := by
  induction members with
  | nil => rfl
  | cons m rest ih =>
    cases rest with
    | nil =>
      rw [prettyMembers, rows, memberText, List.append_assoc]
      rfl
    | cons next rest =>
      rw [prettyMembers, ih, rows_cons_cons, memberText, List.append_assoc (newline depth)]
      · rfl
      · exact List.cons_ne_nil next rest

theorem isSpace_newline (depth : Nat) : (newline depth).all isSpace = true := by
  rw [newline, List.all_cons, List.all_replicate]
  simp [isSpace]

theorem carries_scalar {depth : Nat} {v : Json} (hne : compact v ≠ [])
    (hpretty : ∀ d, prettyAt d v = compact v)
    (h : ∀ more, Ends more = true → ∃ t, token? (compact v ++ more) = some (t, more) ∧
      ∀ stack, Reader.beginValue stack t = some (Reader.complete v stack)) :
    Carries depth (compact v) v ∧ ∀ d, Carries depth (prettyAt d v) v := by
  have hcompact : Carries depth (compact v) v := carries_of_token hne h
  refine ⟨hcompact, fun d => ?_⟩
  rw [hpretty]
  exact hcompact

theorem carries_nothing_array (depth : Nat) : Carries (depth + 1) ['[', ']'] (.arr []) := by
  intro out more stack hdepth _ hmore
  exact .mark rfl (beginValue_arrayOpen hdepth) (.mark rfl rfl hmore)

theorem carries_nothing_object (depth : Nat) :
    Carries (depth + 1) ['\x7b', '\x7d'] (.obj []) := by
  intro out more stack hdepth _ hmore
  exact .mark rfl (beginValue_objectOpen hdepth) (.mark rfl rfl hmore)

/-- Both forms of a value take a reader past it. -/
theorem carries_forms {depth : Nat} {v : Json} (h : Legible depth v) :
    Carries depth (compact v) v ∧ ∀ d, Carries depth (prettyAt d v) v := by
  induction h with
  | null =>
    refine carries_scalar (by simp [compact]) (fun d => by rw [prettyAt]) fun more _ => ?_
    rw [compact]
    exact ⟨.scalar .null, rfl, fun _ => rfl⟩
  | bool b =>
    refine carries_scalar (by cases b <;> simp [compact]) (fun d => by rw [prettyAt])
      fun more _ => ?_
    refine ⟨.scalar (.bool b), ?_, fun _ => rfl⟩
    cases b <;> rw [compact] <;> rfl
  | @num depth x hx =>
    have hne : numberText x ≠ [] := by
      intro hnil
      rw [hnil] at hx
      cases hx
    refine carries_scalar (by rw [compact]; exact hne) (fun d => by rw [prettyAt])
      fun more hends => ?_
    rw [compact]
    exact ⟨.scalar (.num x), token?_of_read? hx hends, fun _ => rfl⟩
  | str s =>
    refine carries_scalar (by simp [compact, textChars]) (fun d => by rw [prettyAt])
      fun more _ => ?_
    rw [compact]
    exact ⟨.text s, token?_text s more, fun _ => rfl⟩
  | @arr depth items _ ih =>
    cases items with
    | nil =>
      have hempty := carries_nothing_array depth
      refine ⟨?_, fun d => ?_⟩
      · rw [compact, compactItems]
        exact hempty
      · rw [prettyAt]
        exact hempty
    | cons v rest =>
      have hne : v :: rest ≠ [] := List.cons_ne_nil v rest
      refine ⟨?_, fun d => ?_⟩
      · have harray := @carries_array depth [] [] rfl rfl _ _ hne fun v hv => (ih v hv).1
        rw [List.append_nil] at harray
        rw [compact, compactItems_eq]
        exact harray
      · rw [prettyAt, prettyItems_eq]
        exact carries_array (isSpace_newline _) (isSpace_newline d) hne fun v hv => (ih v hv).2 _
  | @obj depth members hsorted _ ih =>
    cases members with
    | nil =>
      have hempty := carries_nothing_object depth
      refine ⟨?_, fun d => ?_⟩
      · rw [compact, compactMembers]
        exact hempty
      · rw [prettyAt]
        exact hempty
    | cons m rest =>
      have hne : m :: rest ≠ [] := List.cons_ne_nil m rest
      refine ⟨?_, fun d => ?_⟩
      · have hobject := @carries_object depth [] [] rfl rfl [] rfl _ _ hne
          (fun m hm => (ih m hm).1) hsorted
        rw [List.append_nil] at hobject
        rw [compact, compactMembers_eq]
        exact hobject
      · rw [prettyAt, prettyMembers_eq]
        exact carries_object (isSpace_newline _) (isSpace_newline d) rfl hne
          (fun m hm => (ih m hm).2 _) hsorted

theorem parse?_of_carries {text : List Char} {v : Json} (h : Carries Reader.maxDepth text v) :
    parse? text = some v := by
  have hreads := h v [] [] (Nat.le_refl _) rfl (.done rfl)
  rw [List.append_nil] at hreads
  exact parse?_of_reads hreads

/-- A value is read back from its compact form. -/
theorem parse?_compact {v : Json} (h : Legible Reader.maxDepth v) : parse? (compact v) = some v :=
  parse?_of_carries (carries_forms h).1

/-- A value is read back from its pretty form. -/
theorem parse?_prettyAt {v : Json} (h : Legible Reader.maxDepth v) :
    parse? (prettyAt 0 v) = some v :=
  parse?_of_carries ((carries_forms h).2 0)

end MeshNode.Json
