import MeshNode.Proofs.Toml.Values

/-!
# Documents written and read back

A document of sections is read back as the table of their tables, as long as sections and
entries have bare names and no name occurs twice in one place.

* **statements** — `statement?_assign` and `statement?_header`: the lines that are written;
* **documents** — `Reads`: a text that is read as some statements, however much fuel is left
  over; `reads_sections` puts the lines together;
* **tables** — `foldlM_sections`: what the statements of distinct sections build;
* **round trip** — `parse?_sections`.
-/

namespace MeshNode.Toml

open MeshNode.Text

variable {c d : Char} {s rest : List Char} {name : String}

/-! ## Names -/

/-- A name that is written without quotes. -/
def IsBareKey (name : String) : Prop :=
  name.toList ≠ [] ∧ ∀ c ∈ name.toList, isKeyChar c = true

instance : Decidable (IsBareKey name) :=
  decidable_of_iff (name.toList ≠ [] ∧ name.toList.all isKeyChar = true)
    (and_congr_right fun _ => List.all_eq_true)

/-- A bare name begins with a firm character that opens neither a text nor a header. -/
theorem IsBareKey.exists_cons (h : IsBareKey name) :
    ∃ d w, name.toList = d :: w ∧ IsFirm d ∧ d ≠ '"' ∧ d ≠ '\x27' ∧ d ≠ '[' := by
  obtain ⟨hne, hall⟩ := h
  cases hname : name.toList with
  | nil => exact absurd hname hne
  | cons d w =>
    have hd : isKeyChar d = true := hall d (hname ▸ List.mem_cons_self)
    refine ⟨d, w, rfl, isFirm_of_class (by decide) hd, ?_, ?_, ?_⟩
    all_goals
      rintro rfl
      exact absurd hd (by decide)

theorem keyPart?_bare (h : IsBareKey name) (hrest : rest.head?.all (! isKeyChar ·) = true) :
    keyPart? (name.toList ++ rest) = some (name, rest) := by
  have hnot : ∀ c ∈ name.toList, (! isKeyChar c) = false := by
    intro c hc
    rw [h.2 c hc]
    rfl
  have hcut := breakAt_append hnot hrest
  have hname : String.ofList name.toList = name := String.ofList_toList
  obtain ⟨d, w, hw, -, hquote, hmark, -⟩ := h.exists_cons
  rw [hw] at hcut hname ⊢
  rw [List.cons_append] at hcut ⊢
  rw [keyPart?, hcut]
  · show some (String.ofList (d :: w), rest) = _
    rw [hname]
  · rintro tail heq
    exact hquote (List.cons.inj heq).1
  · rintro tail heq
    exact hmark (List.cons.inj heq).1

/-- A bare name is a key of one part, unless a dot follows. -/
theorem key?_bare (h : IsBareKey name) (rest : List Char)
    (hrest : rest.head?.all (! isKeyChar ·) = true)
    (hdot : ∀ tail, dropSpace rest ≠ '.' :: tail) :
    key? (name.toList ++ rest) = some ([name], dropSpace rest) := by
  have hpart := keyPart?_bare h hrest
  obtain ⟨d, w, hw, hfirm, -⟩ := h.exists_cons
  have hspace : dropSpace (name.toList ++ rest) = name.toList ++ rest := by
    rw [hw]
    exact dropSpace_firm hfirm _
  have hparts : keyParts ((name.toList ++ rest).length + 1) (name.toList ++ rest) =
      some ([name], dropSpace rest) := by
    rw [keyParts, hspace, hpart]
    simp only [Option.bind_eq_bind, Option.bind_some]
    rfl
  rw [key?, hparts]
  rfl

/-! ## Statements -/

/-- A written value begins with a firm character. -/
theorem chars?_firm {v : Printable} (hv : v.chars? = some s) : ∃ d w, s = d :: w ∧ IsFirm d := by
  have hopen : IsFirm '[' := ⟨rfl, by decide, by decide, by decide⟩
  unfold Printable.chars? at hv
  split at hv
  · next t =>
    cases hv
    obtain ⟨d, w, hw, hfirm, -⟩ := textChars_firm t
    exact ⟨d, w, hw, hfirm⟩
  · next n =>
    split at hv
    · cases hv
      cases hn : (toString n).toList with
      | nil => exact absurd hn (toString_ne_nil n)
      | cons d w =>
        have hd : d ∈ (toString n).toList := hn ▸ List.mem_cons_self
        have hword := isWordChar_of_mem_toString hd
        exact ⟨d, w, rfl, isFirm_of_class (by decide) hword⟩
    · cases hv
  · next b =>
    cases hv
    cases b
    · exact ⟨_, _, rfl, rfl, by decide, by decide, by decide⟩
    · exact ⟨_, _, rfl, rfl, by decide, by decide, by decide⟩
  · cases hv
    exact ⟨_, _, rfl, hopen⟩
  · cases hv
    exact ⟨_, _, rfl, hopen⟩
  · cases hv
    exact ⟨_, _, rfl, hopen⟩

theorem statement?_assign (h : IsBareKey name) {v : Printable} (hv : v.chars? = some s)
    (rest : List Char) :
    statement? (name.toList ++ [' ', '=', ' '] ++ s ++ '\n' :: rest) =
      some (.assign [name] v.toToml, '\n' :: rest) := by
  have hkey := key?_bare h (' ' :: '=' :: ' ' :: (s ++ '\n' :: rest)) rfl
    fun tail heq => absurd (List.cons.inj heq).1 (by decide)
  have hvalue := value?_chars hv (.newline rest)
  obtain ⟨d, w, hw, -, -, -, hopen⟩ := h.exists_cons
  obtain ⟨e, w', rfl, hfirm⟩ := chars?_firm hv
  have hspace : dropSpace (' ' :: (e :: w' ++ '\n' :: rest)) = e :: w' ++ '\n' :: rest :=
    dropSpace_firm hfirm _
  have happend : name.toList ++ [' ', '=', ' '] ++ e :: w' ++ '\n' :: rest =
      name.toList ++ ' ' :: '=' :: ' ' :: (e :: w' ++ '\n' :: rest) := by
    simp
  rw [happend]
  rw [hw] at hkey ⊢
  rw [List.cons_append] at hkey ⊢
  rw [statement?, hkey]
  · show (value? (dropSpace (' ' :: (e :: w' ++ '\n' :: rest)))).bind _ = _
    rw [hspace, hvalue]
    rfl
  all_goals
    rintro tail heq
    exact hopen (List.cons.inj heq).1

theorem statement?_header (h : IsBareKey name) (rest : List Char) :
    statement? ('[' :: (name.toList ++ ']' :: '\n' :: rest)) =
      some (.header [name], '\n' :: rest) := by
  have hkey := key?_bare h (']' :: '\n' :: rest) rfl
    fun tail heq => absurd (List.cons.inj heq).1 (by decide)
  obtain ⟨d, w, hw, -, -, -, hopen⟩ := h.exists_cons
  rw [hw] at hkey ⊢
  rw [List.cons_append] at hkey ⊢
  rw [statement?, hkey]
  · rfl
  · rintro tail heq
    exact hopen (List.cons.inj heq).1

/-! ## Documents -/

/-- The statement of an entry. -/
def assignment (entry : String × Printable) : Statement := .assign [entry.1] entry.2.toToml

/-- The statements of a section. -/
def Section.statements (s : Section) : List Statement :=
  .header [s.name] :: s.entries.map assignment

/-- A section and its entries have bare names, and no two entries have the same. -/
structure ArePlain (name : String) (keys : List String) : Prop where
  bareName : IsBareKey name
  bareKeys : ∀ key ∈ keys, IsBareKey key
  nodup : keys.Nodup

instance {keys : List String} : Decidable (ArePlain name keys) :=
  decidable_of_iff (IsBareKey name ∧ (∀ key ∈ keys, IsBareKey key) ∧ keys.Nodup)
    ⟨fun h => ⟨h.1, h.2.1, h.2.2⟩, fun h => ⟨h.bareName, h.bareKeys, h.nodup⟩⟩

/-- The names of a section and of its entries are plain. -/
abbrev Section.IsPlain (s : Section) : Prop := ArePlain s.name (s.entries.map (·.1))

/-- A text is read as these statements, whenever there is fuel for each of its characters. -/
def Reads (s : List Char) (statements : List Statement) : Prop :=
  ∀ fuel, s.length ≤ fuel → statementsIn fuel s = some statements

theorem reads_nil : Reads [] [] := fun fuel _ => by
  rw [statementsIn]
  rfl

variable {statements : List Statement}

/-- An empty line changes nothing. -/
theorem Reads.newline (h : Reads s statements) : Reads ('\n' :: s) statements := by
  intro fuel hfuel
  have hrest := h fuel (by rw [List.length_cons] at hfuel; omega)
  unfold statementsIn at hrest ⊢
  exact hrest

/-- A statement on a line of its own comes before those of the lines below. -/
theorem Reads.line (h : Reads rest statements) {statement : Statement} (hc : IsFirm c)
    (hread : statement? (c :: s ++ '\n' :: rest) = some (statement, '\n' :: rest)) :
    Reads (c :: s ++ '\n' :: rest) (statement :: statements) := by
  intro fuel hfuel
  simp only [List.cons_append, List.length_cons, List.length_append] at hfuel
  obtain ⟨fuel, rfl⟩ : ∃ k, fuel = k + 1 := ⟨fuel - 1, by omega⟩
  have hrest := h fuel (by omega)
  rw [List.cons_append] at hread ⊢
  rw [statementsIn, dropFiller_firm hc]
  show (statement? (c :: (s ++ '\n' :: rest))).bind _ = _
  rw [hread]
  show (statementsIn fuel rest).bind _ = _
  rw [hrest]
  rfl

theorem reads_entries {entries : List (String × Printable)} {lines : List (List Char)}
    (hkeys : ∀ key ∈ entries.map (·.1), IsBareKey key)
    (hlines : (entries.mapM fun (name, value) => assignmentLine? name value) = some lines)
    (h : Reads rest statements) :
    Reads (lines.flatten ++ rest) (entries.map assignment ++ statements) := by
  induction entries generalizing lines with
  | nil =>
    cases hlines
    exact h
  | cons entry entries ih =>
    obtain ⟨name, value⟩ := entry
    simp only [List.mapM_cons, Option.bind_eq_bind, Option.bind_eq_some_iff, assignmentLine?,
      Option.map_eq_some_iff] at hlines
    obtain ⟨line, ⟨chars, hchars, rfl⟩, lines, htail, heq⟩ := hlines
    cases heq
    rw [List.map_cons, List.forall_mem_cons] at hkeys
    obtain ⟨hname, hkeys⟩ := hkeys
    have htail := ih hkeys htail
    have hread := statement?_assign hname hchars (lines.flatten ++ rest)
    obtain ⟨d, w, hw, hfirm, -⟩ := hname.exists_cons
    rw [List.flatten_cons, List.append_assoc, List.append_assoc, List.singleton_append]
    rw [hw] at hread ⊢
    exact htail.line hfirm hread

theorem Section.reads_chars {s : Section} (hs : s.IsPlain) {chars : List Char}
    (hchars : s.chars? = some chars) (h : Reads rest statements) :
    Reads (chars ++ rest) (s.statements ++ statements) := by
  simp only [Section.chars?, Option.bind_eq_bind, Option.bind_eq_some_iff] at hchars
  obtain ⟨lines, hlines, heq⟩ := hchars
  cases heq
  have hbody := reads_entries hs.bareKeys hlines h
  have hread := statement?_header hs.bareName (lines.flatten ++ rest)
  have hline : Reads ('[' :: (s.name.toList ++ [']']) ++ '\n' :: (lines.flatten ++ rest))
      (s.statements ++ statements) := by
    refine hbody.line ⟨rfl, by decide, by decide, by decide⟩ ?_
    rw [List.cons_append, List.append_assoc]
    exact hread
  simpa using hline

/-- Sections are read back in order, whatever blank lines stand between them. -/
theorem reads_sections {sections : List Section} (hs : ∀ s ∈ sections, s.IsPlain)
    {chars : List Char} (hchars : sectionsChars? sections = some chars) :
    Reads chars (sections.flatMap Section.statements) := by
  induction sections generalizing chars with
  | nil =>
    cases hchars
    exact reads_nil
  | cons s sections ih =>
    have hhead := hs s List.mem_cons_self
    have htail := fun t ht => hs t (List.mem_cons_of_mem s ht)
    cases sections with
    | nil =>
      have hread := Section.reads_chars hhead hchars reads_nil
      simpa using hread
    | cons t sections =>
      simp only [sectionsChars?, Option.bind_eq_bind, Option.bind_eq_some_iff] at hchars
      obtain ⟨first, hfirst, others, hothers, heq⟩ := hchars
      cases heq
      exact Section.reads_chars hhead hfirst (ih htail hothers).newline

/-! ## Tables -/

/-- The entry that an assignment makes. -/
def assigned (entry : String × Printable) : String × Item := (entry.1, .value entry.2.toToml)

/-- The entry that a section makes. -/
def Section.item (s : Section) : String × Item := (s.name, .table .defined (s.entries.map assigned))

/-- The entry of the table that a section spells. -/
def Section.toToml (s : Section) : String × Toml :=
  (s.name, .table (s.entries.map fun entry => (entry.1, entry.2.toToml)))

namespace Entries

variable {entries : Entries} {item : Item}

theorem set_of_not_mem (h : name ∉ entries.map (·.1)) :
    set name item entries = entries ++ [(name, item)] := by
  induction entries with
  | nil => rfl
  | cons entry entries ih =>
    rw [List.map_cons, List.mem_cons, not_or] at h
    obtain ⟨n, i⟩ := entry
    rw [set, if_neg (Ne.symm h.1), ih h.2]
    rfl

theorem set_append_singleton (h : name ∉ entries.map (·.1)) (old : Item) :
    set name item (entries ++ [(name, old)]) = entries ++ [(name, item)] := by
  induction entries with
  | nil => exact if_pos rfl
  | cons entry entries ih =>
    rw [List.map_cons, List.mem_cons, not_or] at h
    obtain ⟨n, i⟩ := entry
    rw [List.cons_append, set, if_neg (Ne.symm h.1), ih h.2]
    rfl

theorem lookup_of_not_mem (h : name ∉ entries.map (·.1)) : entries.lookup name = none := by
  rw [List.lookup_eq_none_iff]
  intro entry hentry
  rw [bne_iff_ne]
  rintro rfl
  exact h (List.mem_map_of_mem hentry)

theorem lookup_append_singleton (h : name ∉ entries.map (·.1)) :
    (entries ++ [(name, item)]).lookup name = some item := by
  rw [List.lookup_append, lookup_of_not_mem h, Option.none_or, List.lookup_cons_self]

theorem entryValues_assigned (entries : List (String × Printable)) :
    entryValues (entries.map assigned) = entries.map fun entry => (entry.1, entry.2.toToml) := by
  induction entries with
  | nil => rfl
  | cons entry entries ih =>
    rw [List.map_cons, List.map_cons, assigned, entryValues, itemValue, ih]

theorem entryValues_sections (sections : List Section) :
    entryValues (sections.map Section.item) = sections.map Section.toToml := by
  induction sections with
  | nil => rfl
  | cons s sections ih =>
    rw [List.map_cons, List.map_cons, Section.item, entryValues, itemValue, entryValues_assigned,
      ih]
    rfl

end Entries

open Entries

variable {root inner : Entries} {key : String} {here : List String}

theorem take_header (h : name ∉ root.map (·.1)) :
    Document.take ⟨root, here⟩ (.header [name]) =
      some ⟨root ++ [(name, .table .defined [])], [name]⟩ := by
  have hdefine : define name root = some (root ++ [(name, .table .defined [])]) := by
    rw [define, lookup_of_not_mem h]
    dsimp only
    rw [set_of_not_mem h]
  show (define name root).bind _ = _
  rw [hdefine]
  rfl

theorem take_assign (hname : name ∉ root.map (·.1)) (hkey : key ∉ inner.map (·.1)) (v : Toml) :
    Document.take ⟨root ++ [(name, .table .defined inner)], [name]⟩ (.assign [key] v) =
      some ⟨root ++ [(name, .table .defined (inner ++ [(key, .value v)]))], [name]⟩ := by
  have hassign : assign v [key] inner = some (inner ++ [(key, .value v)]) := by
    rw [assign, lookup_of_not_mem hkey]
    dsimp only
    rw [set_of_not_mem hkey]
  have hwithin : within (assign v [key]) [name] (root ++ [(name, .table .defined inner)]) =
      some (root ++ [(name, .table .defined (inner ++ [(key, .value v)]))]) := by
    rw [within, lookup_append_singleton hname]
    show (assign v [key] inner).bind _ = _
    rw [hassign, Option.bind_some, set_append_singleton hname]
    rfl
  show (within (assign v [key]) [name] (root ++ [(name, .table .defined inner)])).bind _ = _
  rw [hwithin]
  rfl

/-- The assignments below a header fill its table in order. -/
theorem foldlM_entries (hname : name ∉ root.map (·.1)) {entries : List (String × Printable)}
    (hkeys : (inner.map (·.1) ++ entries.map (·.1)).Nodup) :
    (entries.map assignment).foldlM Document.take
        ⟨root ++ [(name, .table .defined inner)], [name]⟩ =
      some ⟨root ++ [(name, .table .defined (inner ++ entries.map assigned))], [name]⟩ := by
  -- what was assigned so far is `inner`, in the last table of the document
  induction entries generalizing inner with
  | nil =>
    rw [List.map_nil, List.map_nil, List.append_nil]
    rfl
  | cons entry entries ih =>
    have hkey : entry.1 ∉ inner.map (·.1) := fun hmem =>
      (List.nodup_append.mp hkeys).2.2 _ hmem _ List.mem_cons_self rfl
    rw [List.map_cons, List.foldlM_cons, assignment, take_assign hname hkey]
    show (entries.map assignment).foldlM Document.take _ = _
    rw [ih (by simpa using hkeys)]
    simp [assigned]

theorem foldlM_section {s : Section} (hs : s.IsPlain) (hname : s.name ∉ root.map (·.1)) :
    s.statements.foldlM Document.take ⟨root, here⟩ = some ⟨root ++ [s.item], [s.name]⟩ := by
  rw [Section.statements, List.foldlM_cons, take_header hname]
  show (s.entries.map assignment).foldlM Document.take _ = _
  rw [foldlM_entries hname (by simpa using hs.nodup)]
  rfl

/-- Sections of distinct names become the tables of the document, in order. -/
theorem foldlM_sections (root : Entries) (here : List String) {sections : List Section}
    (hs : ∀ s ∈ sections, s.IsPlain)
    (hnames : (root.map (·.1) ++ sections.map (·.name)).Nodup) :
    ∃ last, (sections.flatMap Section.statements).foldlM Document.take ⟨root, here⟩ =
      some ⟨root ++ sections.map Section.item, last⟩ := by
  induction sections generalizing root here with
  | nil => exact ⟨here, by simp⟩
  | cons s sections ih =>
    have hname : s.name ∉ root.map (·.1) := fun hmem =>
      (List.nodup_append.mp hnames).2.2 _ hmem _ List.mem_cons_self rfl
    have htail := fun t ht => hs t (List.mem_cons_of_mem s ht)
    obtain ⟨last, hlast⟩ := ih (root ++ [s.item]) [s.name] htail
      (by simpa [Section.item] using hnames)
    refine ⟨last, ?_⟩
    rw [List.flatMap_cons, List.foldlM_append, foldlM_section (hs s List.mem_cons_self) hname]
    show (sections.flatMap Section.statements).foldlM Document.take _ = _
    rw [hlast, List.append_assoc]
    rfl

/-! ## Written forms -/

/-- A value has a written form; only a number may be too great for one. -/
def Printable.Fits : Printable → Prop
  | .number n => n ≤ maxNumber
  | _ => True

theorem Printable.isSome_chars? (v : Printable) : v.chars?.isSome ↔ v.Fits := by
  unfold Printable.chars?
  split
  · exact iff_of_true rfl trivial
  · next n =>
    unfold Printable.Fits
    split
    · next h => exact iff_of_true rfl h
    · next h => exact iff_of_false Bool.false_ne_true h
  all_goals exact iff_of_true rfl trivial

theorem isSome_assignmentLines (entries : List (String × Printable)) :
    (entries.mapM fun (name, value) => assignmentLine? name value).isSome ↔
      ∀ entry ∈ entries, entry.2.Fits := by
  induction entries with
  | nil => simp
  | cons entry entries ih =>
    obtain ⟨name, value⟩ := entry
    have hline : (assignmentLine? name value).isSome ↔ value.Fits := by
      rw [assignmentLine?, Option.isSome_map]
      exact value.isSome_chars?
    rw [List.forall_mem_cons, ← ih, ← hline, List.mapM_cons]
    show ((assignmentLine? name value).bind _).isSome ↔ _
    cases assignmentLine? name value with
    | none => simp
    | some line =>
      rw [Option.bind_some]
      cases entries.mapM fun (name, value) => assignmentLine? name value with
      | none => simp
      | some lines => simp

theorem Section.isSome_chars? (s : Section) :
    s.chars?.isSome ↔ ∀ entry ∈ s.entries, entry.2.Fits := by
  rw [← isSome_assignmentLines, Section.chars?]
  cases s.entries.mapM fun (name, value) => assignmentLine? name value with
  | none => simp
  | some lines => simp

/-- A document has a written form unless one of its numbers has none. -/
theorem isSome_sectionsChars? (sections : List Section) :
    (sectionsChars? sections).isSome ↔ ∀ s ∈ sections, ∀ entry ∈ s.entries, entry.2.Fits := by
  induction sections with
  | nil => simp [sectionsChars?]
  | cons s sections ih =>
    rw [List.forall_mem_cons, ← ih, ← s.isSome_chars?]
    cases sections with
    | nil => simp [sectionsChars?]
    | cons t sections =>
      rw [sectionsChars?]
      · cases s.chars? with
        | none => simp
        | some first =>
          cases sectionsChars? (t :: sections) with
          | none => simp
          | some others => simp
      · simp

/-! ## Round trip -/

theorem Section.exists_cons {s : Section} {chars : List Char} (h : s.chars? = some chars) :
    ∃ w, chars = '[' :: w := by
  simp only [Section.chars?, Option.bind_eq_bind, Option.bind_eq_some_iff] at h
  obtain ⟨lines, -, heq⟩ := h
  cases heq
  exact ⟨_, rfl⟩

/-- A document of sections begins with a header, and so with no byte order mark. -/
theorem dropMark_sections {sections : List Section} {chars : List Char}
    (hchars : sectionsChars? sections = some chars) : dropMark chars = chars := by
  have hfirst : chars = [] ∨ ∃ w, chars = '[' :: w := by
    rcases sections with _ | ⟨s, _ | ⟨t, sections⟩⟩
    · cases hchars
      exact Or.inl rfl
    · exact Or.inr (Section.exists_cons hchars)
    · simp only [sectionsChars?, Option.bind_eq_bind, Option.bind_eq_some_iff] at hchars
      obtain ⟨first, hfirst, others, -, heq⟩ := hchars
      obtain ⟨w, rfl⟩ := Section.exists_cons hfirst
      cases heq
      exact Or.inr ⟨_, rfl⟩
  rcases hfirst with rfl | ⟨w, rfl⟩
  · rfl
  · rfl

/-- A document is read back as the tables that its sections spell. -/
theorem parse?_sections {sections : List Section} (hs : ∀ s ∈ sections, s.IsPlain)
    (hnames : (sections.map (·.name)).Nodup) {chars : List Char}
    (hchars : sectionsChars? sections = some chars) :
    parse? (String.ofList chars) = some (.table (sections.map Section.toToml)) := by
  have hread := reads_sections hs hchars chars.length (Nat.le_refl _)
  obtain ⟨last, hbuild⟩ := foldlM_sections [] [] hs hnames
  rw [parse?, String.toList_ofList, dropMark_sections hchars, hread]
  show ofStatements? _ = _
  rw [ofStatements?, Document.empty, hbuild]
  show some (Toml.table (entryValues (sections.map Section.item))) = _
  rw [entryValues_sections]

end MeshNode.Toml
