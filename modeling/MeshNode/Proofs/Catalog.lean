import MeshNode.Catalog
import MeshNode.Proofs.Records
import MeshNode.Proofs.Text.Cutting

/-!
# Catalogs, line by line

The rows of a text are its pieces between newlines. Each row of a catalog is read by itself, and
what is read of it does not depend on the white space around it; rows without an entry count for the
number of a line and for nothing else.

* **counting** — `parseLines_add`: a later first line makes an error come later;
* **one row behind another** — `parseLines_append`, for the rows of two texts by `rowsOf_append`;
  `parsed_of_parse`: each URL of a catalog has been read from a text;
* **other rows around the same entries** — `Redressed` relates the rows of a text to those of
  another with rows put in and white space put around, and counts the rows put in;
  `Redressed.parseLines` says that only the count shows;
* **ends of lines** — `parse_eq`: what `lines` takes off is white space, so that a catalog is read
  from its rows; `redressed_returned` for those of a text with carriage returns.

`read_line_by_line` is all of it.
-/

namespace MeshNode.Catalog

open MeshNode.Text

variable {n : Nat} {rows rows' : List (List Char)} {shifts : List Nat}

/-! ## Rows one behind the other -/

/-- A result whose lines are counted from `k` lines later on. -/
def later {α : Type} (k : Nat) : Except CatalogError α → Except CatalogError α
  | .ok a => .ok a
  | .error e => .error { e with line := e.line + k }

/-- Whether a row holds no entry. -/
def IsSpare (row : List Char) : Prop := isSkipped (trim isBlank row) = true

theorem parseLines_of_isSpare {row : List Char} (h : IsSpare row) (n : Nat)
    (rows : List (List Char)) : parseLines n (row :: rows) = parseLines (n + 1) rows := by
  rw [parseLines]
  exact if_pos h

theorem parseLines_of_error {row : List Char} (h : ¬ IsSpare row) {cause : UrlError}
    (hcause : Url.parse (String.ofList (trim isBlank row)) = .error cause) (n : Nat)
    (rows : List (List Char)) : parseLines n (row :: rows) =
      .error ⟨n, String.ofList (trim isBlank row), cause⟩ := by
  rw [parseLines, if_neg (show ¬ isSkipped _ = true from h), hcause]

theorem parseLines_of_ok {row : List Char} (h : ¬ IsSpare row) {url : Url}
    (hurl : Url.parse (String.ofList (trim isBlank row)) = .ok url) (n : Nat)
    (rows : List (List Char)) : parseLines n (row :: rows) =
      (parseLines (n + 1) rows).map (url :: ·) := by
  rw [parseLines, if_neg (show ¬ isSkipped _ = true from h), hurl]
  cases parseLines (n + 1) rows <;> rfl

/-- The first line has a number that is only added to those of errors. -/
theorem parseLines_add (n k : Nat) (rows : List (List Char)) :
    parseLines (n + k) rows = later k (parseLines n rows) := by
  induction rows generalizing n with
  | nil => rfl
  | cons row rows ih =>
    have hnext : parseLines (n + k + 1) rows = later k (parseLines (n + 1) rows) := by
      rw [← ih (n + 1)]
      congr 1
      omega
    by_cases hspare : IsSpare row
    · rw [parseLines_of_isSpare hspare, parseLines_of_isSpare hspare, hnext]
    cases hurl : Url.parse (String.ofList (trim isBlank row)) with
    | error cause =>
      rw [parseLines_of_error hspare hurl, parseLines_of_error hspare hurl]
      rfl
    | ok url =>
      rw [parseLines_of_ok hspare hurl, parseLines_of_ok hspare hurl, hnext]
      cases parseLines (n + 1) rows <;> rfl

/-- Rows behind others are read if those are, with the number that comes after theirs. -/
theorem parseLines_append (n : Nat) (rows rest : List (List Char)) :
    parseLines n (rows ++ rest) =
      (parseLines n rows).bind fun urls =>
        (later rows.length (parseLines n rest)).map (urls ++ ·) := by
  induction rows generalizing n with
  | nil =>
    show parseLines n rest = (later 0 (parseLines n rest)).map ([] ++ ·)
    cases parseLines n rest <;> rfl
  | cons row rows ih =>
    have hrest : later rows.length (parseLines (n + 1) rest) =
        later (row :: rows).length (parseLines n rest) := by
      rw [← parseLines_add, ← parseLines_add, List.length_cons]
      congr 1
      omega
    rw [List.cons_append]
    by_cases hspare : IsSpare row
    · rw [parseLines_of_isSpare hspare, parseLines_of_isSpare hspare, ih, hrest]
    cases hurl : Url.parse (String.ofList (trim isBlank row)) with
    | error cause =>
      rw [parseLines_of_error hspare hurl, parseLines_of_error hspare hurl]
      rfl
    | ok url =>
      rw [parseLines_of_ok hspare hurl, parseLines_of_ok hspare hurl, ih, hrest]
      cases parseLines (n + 1) rows with
      | error e => rfl
      | ok urls => cases later (row :: rows).length (parseLines n rest) <;> rfl

/-- What is read from a row is read from a text of its own. -/
theorem parsed_of_parseLines {n : Nat} {rows : List (List Char)} {urls : List Url}
    (h : parseLines n rows = .ok urls) : ∀ u ∈ urls, ∃ text, Url.parse text = .ok u := by
  induction rows generalizing n urls with
  | nil =>
    cases h
    exact nofun
  | cons row rows ih =>
    by_cases hspare : IsSpare row
    · rw [parseLines_of_isSpare hspare] at h
      exact ih h
    cases hurl : Url.parse (String.ofList (trim isBlank row)) with
    | error cause =>
      rw [parseLines_of_error hspare hurl] at h
      cases h
    | ok url =>
      rw [parseLines_of_ok hspare hurl] at h
      cases hrest : parseLines (n + 1) rows with
      | error e =>
        rw [hrest] at h
        cases h
      | ok rest =>
        rw [hrest] at h
        cases h
        exact List.forall_mem_cons.mpr ⟨⟨_, hurl⟩, ih hrest⟩

/-- So are the peers of a catalog. -/
theorem parsed_of_parse {text : String} {urls : List Url} (h : parse text = .ok urls) :
    ∀ u ∈ urls, ∃ t, Url.parse t = .ok u := parsed_of_parseLines h

/-! ## Other rows around the same entries -/

/-- The second rows are the first with rows without an entry put in anywhere and white space put
around any row. For each of the first rows the numbers say how many rows have been put in
before it. -/
inductive Redressed : List (List Char) → List (List Char) → List Nat → Prop
  | nil : Redressed [] [] []
  | insert {rows rows' : List (List Char)} {shifts : List Nat} {row : List Char} :
      IsSpare row → Redressed rows rows' shifts →
      Redressed rows (row :: rows') (shifts.map (· + 1))
  | surround {rows rows' : List (List Char)} {shifts : List Nat} {before after : List Char}
      (row : List Char) :
      (∀ c ∈ before, isBlank c = true) → (∀ c ∈ after, isBlank c = true) →
      Redressed rows rows' shifts →
      Redressed (row :: rows) ((before ++ row ++ after) :: rows') (0 :: shifts)

theorem Redressed.follow {after : List Char} (h : Redressed rows rows' shifts) (row : List Char)
    (hafter : ∀ c ∈ after, isBlank c = true) :
    Redressed (row :: rows) ((row ++ after) :: rows') (0 :: shifts) := by
  have hbefore : ∀ c ∈ ([] : List Char), isBlank c = true := nofun
  exact h.surround row hbefore hafter

theorem Redressed.keep {row : List Char} (h : Redressed rows rows' shifts) :
    Redressed (row :: rows) (row :: rows') (0 :: shifts) := by
  have hafter : ∀ c ∈ ([] : List Char), isBlank c = true := nofun
  have hsame := h.follow row hafter
  rwa [List.append_nil] at hsame

/-- Of the rows put in, an error shows those before its line, and the URLs show none. -/
theorem Redressed.parseLines (h : Redressed rows rows' shifts) (n : Nat) :
    (∀ urls, parseLines n rows = .ok urls → parseLines n rows' = .ok urls) ∧
    ∀ e, parseLines n rows = .error e → ∃ i k, e.line = n + i ∧ shifts[i]? = some k ∧
      parseLines n rows' = .error { e with line := e.line + k } := by
  induction h generalizing n with
  | nil => exact ⟨fun _ h => h, nofun⟩
  | @insert rows rows' shifts row hspare _ ih =>
    have hskip : Catalog.parseLines n (row :: rows') = later 1 (Catalog.parseLines n rows') := by
      rw [parseLines_of_isSpare hspare, parseLines_add]
    rw [hskip]
    refine ⟨fun urls hurls => by rw [(ih n).1 urls hurls]; rfl, fun e he => ?_⟩
    obtain ⟨i, k, hline, hk, hread⟩ := (ih n).2 e he
    refine ⟨i, k + 1, hline, ?_, ?_⟩
    · rw [List.getElem?_map, hk]
      rfl
    · rw [hread]
      rfl
  | @surround rows rows' shifts before after row hbefore hafter _ ih =>
    have htrim := trim_surrounded hbefore hafter row
    have hspare : IsSpare (before ++ row ++ after) ↔ IsSpare row := by rw [IsSpare, htrim, IsSpare]
    -- what the later rows come to, once this one has been read
    have hnext : ∀ e, Catalog.parseLines (n + 1) rows = .error e →
        ∃ i k, e.line = n + i ∧ (0 :: shifts)[i]? = some k ∧
          Catalog.parseLines (n + 1) rows' = .error { e with line := e.line + k } := by
      intro e he
      obtain ⟨i, k, hline, hk, hread⟩ := (ih (n + 1)).2 e he
      exact ⟨i + 1, k, by omega, hk, hread⟩
    by_cases hrow : IsSpare row
    · rw [parseLines_of_isSpare hrow, parseLines_of_isSpare (hspare.mpr hrow)]
      exact ⟨(ih (n + 1)).1, hnext⟩
    have hrow' : ¬ IsSpare (before ++ row ++ after) := fun h => hrow (hspare.mp h)
    cases hurl : Url.parse (String.ofList (trim isBlank row)) with
    | error cause =>
      rw [parseLines_of_error hrow hurl, parseLines_of_error hrow' (htrim ▸ hurl), htrim]
      refine ⟨nofun, ?_⟩
      rintro e ⟨⟩
      exact ⟨0, 0, rfl, rfl, rfl⟩
    | ok url =>
      rw [parseLines_of_ok hrow hurl, parseLines_of_ok hrow' (htrim ▸ hurl)]
      cases hrest : Catalog.parseLines (n + 1) rows with
      | error e =>
        obtain ⟨i, k, hline, hk, hread⟩ := hnext e hrest
        rw [hread]
        refine ⟨nofun, ?_⟩
        rintro e ⟨⟩
        exact ⟨i, k, hline, hk, rfl⟩
      | ok urls =>
        rw [(ih (n + 1)).1 urls hrest]
        exact ⟨fun _ h => h, nofun⟩

/-- Without rows put in nothing shows. -/
theorem Redressed.parseLines_eq (h : Redressed rows rows' shifts) (hnone : ∀ k ∈ shifts, k = 0)
    (n : Nat) : Catalog.parseLines n rows' = Catalog.parseLines n rows := by
  cases hrows : Catalog.parseLines n rows with
  | ok urls => exact (h.parseLines n).1 urls hrows
  | error e =>
    obtain ⟨i, k, -, hk, hread⟩ := (h.parseLines n).2 e hrows
    rw [hread, hnone k (List.mem_of_getElem? hk)]
    rfl

/-! ## Ends of lines -/

/-- The rows of a text: its pieces between newlines. -/
def rowsOf (text : String) : List (List Char) := splitAt '\n' text.toList

/-- The lines that some rows are, the last of which no newline ends. -/
def linesOf (pieces : List (List Char)) : List (List Char) :=
  match pieces.getLast? with
  | some [] => pieces.dropLast.map dropReturn
  | some tail => pieces.dropLast.map dropReturn ++ [tail]
  | none => pieces.dropLast.map dropReturn

theorem linesOf_cons (first second : List Char) (pieces : List (List Char)) :
    linesOf (first :: second :: pieces) = dropReturn first :: linesOf (second :: pieces) := by
  rw [linesOf, linesOf, List.getLast?_cons_cons, List.dropLast_cons_cons, List.map_cons]
  split <;> rfl

theorem exists_dropReturn (row : List Char) :
    ∃ after, (∀ c ∈ after, isBlank c = true) ∧ row = dropReturn row ++ after := by
  rw [dropReturn]
  split
  · next rest hreverse =>
    refine ⟨['\r'], by simp [isBlank], ?_⟩
    rw [← List.reverse_reverse row, hreverse, List.reverse_cons]
  · exact ⟨[], nofun, (List.append_nil row).symm⟩

/-- What the end of a line takes with it is white space, and no line is lost but an empty one. -/
theorem redressed_linesOf (last : List Char) (pieces : List (List Char)) :
    ∃ shifts, Redressed (linesOf (pieces ++ [last])) (pieces ++ [last]) shifts ∧
      ∀ k ∈ shifts, k = 0 := by
  induction pieces with
  | nil =>
    cases last with
    | nil => exact ⟨[], Redressed.nil.insert (show IsSpare [] from rfl), nofun⟩
    | cons c last => exact ⟨[0], Redressed.nil.keep, by simp⟩
  | cons first pieces ih =>
    obtain ⟨shifts, hrest, hnone⟩ := ih
    obtain ⟨after, hafter, hfirst⟩ := exists_dropReturn first
    obtain ⟨second, tail, hpieces⟩ :=
      List.exists_cons_of_ne_nil (List.append_ne_nil_of_right_ne_nil pieces (List.cons_ne_nil last []))
    refine ⟨0 :: shifts, ?_, by simpa using hnone⟩
    have hfollow := hrest.follow (dropReturn first) hafter
    rw [← hfirst] at hfollow
    rw [List.cons_append, hpieces, linesOf_cons, ← hpieces]
    exact hfollow

/-- A catalog is read from its rows. -/
theorem parse_eq (text : String) : parse text = parseLines 1 (rowsOf text) := by
  have hsplit := List.dropLast_concat_getLast (splitAt_ne_nil '\n' text.toList)
  obtain ⟨shifts, hlines, hnone⟩ := redressed_linesOf
    ((splitAt '\n' text.toList).getLast (splitAt_ne_nil '\n' text.toList))
    (splitAt '\n' text.toList).dropLast
  rw [hsplit] at hlines
  exact (hlines.parseLines_eq hnone 1).symm

/-- The text with a carriage return before each newline. -/
def withReturns (text : String) : String :=
  String.ofList (text.toList.flatMap fun c => if c = '\n' then ['\r', '\n'] else [c])

/-- Rows with a carriage return at the end of each but the last. -/
def returned : List (List Char) → List (List Char)
  | row :: next :: rows => (row ++ ['\r']) :: returned (next :: rows)
  | rows => rows

theorem rowsOf_withReturns (text : String) : rowsOf (withReturns text) = returned (rowsOf text) := by
  rw [rowsOf, rowsOf, withReturns, String.toList_ofList]
  induction text.toList with
  | nil => rfl
  | cons c s ih =>
    obtain ⟨row, rows, hs⟩ := List.exists_cons_of_ne_nil (splitAt_ne_nil '\n' s)
    rw [List.flatMap_cons]
    by_cases hc : c = '\n'
    · rw [if_pos hc, hc, splitAt, if_pos rfl, hs, returned, ← hs, ← ih]
      exact splitAt_append_sep '\n' ['\r'] _
    · rw [if_neg hc, List.singleton_append, splitAt_cons_of_ne hc hs]
      rw [hs] at ih
      cases rows with
      | nil => exact splitAt_cons_of_ne hc ih
      | cons next rows =>
        rw [returned] at ih
        rw [splitAt_cons_of_ne hc ih, returned, List.cons_append]

theorem redressed_returned (rows : List (List Char)) :
    ∃ shifts, Redressed rows (returned rows) shifts ∧ ∀ k ∈ shifts, k = 0 := by
  induction rows with
  | nil => exact ⟨[], .nil, nofun⟩
  | cons row rows ih =>
    obtain ⟨shifts, hrest, hnone⟩ := ih
    refine ⟨0 :: shifts, ?_, by simpa using hnone⟩
    cases rows with
    | nil => exact hrest.keep
    | cons next rows =>
      have hreturn : ∀ c ∈ ['\r'], isBlank c = true := by simp [isBlank]
      exact hrest.follow row hreturn

/-! ## All of it -/

theorem rowsOf_append (a b : String) : rowsOf (a ++ "\n" ++ b) = rowsOf a ++ rowsOf b := by
  rw [rowsOf, String.toList_append, String.toList_append, List.append_assoc]
  exact splitAt_append_sep '\n' a.toList b.toList

/-- How many rows a text has. -/
theorem length_rowsOf (text : String) : (rowsOf text).length = text.toList.count '\n' + 1 :=
  length_splitAt '\n' text.toList

/-- **Catalogs are read line by line.** Behind a newline a second catalog is read as if it stood
alone: its URLs come after those of the first, and its error is that of both, with the number that
its line then has; an error of the first is that of both. And whatever rows without an entry are
put in and whatever white space is put around rows, the same URLs are read or the same entry is
refused for the same cause, and the number of its line counts the rows put in before it. Carriage
returns before the newlines change nothing. -/
theorem read_line_by_line (a b : String) :
    (∀ us, parse a = .ok us →
      (∀ vs, parse b = .ok vs → parse (a ++ "\n" ++ b) = .ok (us ++ vs)) ∧
      ∀ e, parse b = .error e → parse (a ++ "\n" ++ b) =
        .error { e with line := e.line + 1 + a.toList.count '\n' }) ∧
    (∀ e, parse a = .error e → parse (a ++ "\n" ++ b) = .error e) ∧
    (∀ t shifts, Redressed (rowsOf a) (rowsOf t) shifts →
      (∀ us, parse a = .ok us → parse t = .ok us) ∧
      ∀ e, parse a = .error e → ∃ k, shifts[e.line - 1]? = some k ∧
        parse t = .error { e with line := e.line + k }) ∧
    parse (withReturns a) = parse a := by
  have happend : parse (a ++ "\n" ++ b) =
      (parse a).bind fun us => (later (a.toList.count '\n' + 1) (parse b)).map (us ++ ·) := by
    rw [parse_eq, rowsOf_append, parseLines_append, length_rowsOf, parse_eq a, parse_eq b]
  refine ⟨fun us ha => ⟨fun vs hb => ?_, fun e hb => ?_⟩, fun e ha => ?_, fun t shifts ht => ?_, ?_⟩
  · rw [happend, ha, hb]
    rfl
  · rw [happend, ha, hb, Nat.add_assoc, Nat.add_comm 1]
    rfl
  · rw [happend, ha]
    rfl
  · rw [parse_eq a, parse_eq t]
    refine ⟨(ht.parseLines 1).1, fun e he => ?_⟩
    obtain ⟨i, k, hline, hk, hread⟩ := (ht.parseLines 1).2 e he
    have hi : e.line - 1 = i := by omega
    exact ⟨k, hi ▸ hk, hread⟩
  · obtain ⟨shifts, hreturned, hnone⟩ := redressed_returned (rowsOf a)
    rw [← rowsOf_withReturns] at hreturned
    rw [parse_eq (withReturns a), parse_eq a, hreturned.parseLines_eq hnone]

/-- A peer and a text that is none, one behind the other in either order, and the text that is none
behind a comment, indented, on a line that ends in a carriage return. -/
theorem peer_and_note_read :
    ∃ u, parse "tcp://192.0.2.1:4000" = .ok [u] ∧
      parse "not a uri" = .error ⟨1, "not a uri", .relativeWithoutBase⟩ ∧
      parse ("tcp://192.0.2.1:4000" ++ "\n" ++ "tcp://192.0.2.1:4000") = .ok [u, u] ∧
      parse ("tcp://192.0.2.1:4000" ++ "\n" ++ "not a uri") =
        .error ⟨2, "not a uri", .relativeWithoutBase⟩ ∧
      parse ("not a uri" ++ "\n" ++ "tcp://192.0.2.1:4000") =
        .error ⟨1, "not a uri", .relativeWithoutBase⟩ ∧
      Redressed (rowsOf "not a uri") (rowsOf "# peers\n \t not a uri\r") [1] ∧
      parse "# peers\n \t not a uri\r" = .error ⟨2, "not a uri", .relativeWithoutBase⟩ := by
  have hpeer : ∃ us, parse "tcp://192.0.2.1:4000" = .ok us ∧ us.length = 1 := ⟨_, rfl, rfl⟩
  have hnote : parse "not a uri" = .error ⟨1, "not a uri", .relativeWithoutBase⟩ := rfl
  have hcount : "tcp://192.0.2.1:4000".toList.count '\n' = 0 := by decide
  have hrow : rowsOf "not a uri" = ["not a uri".toList] := by decide
  have hrows : rowsOf "# peers\n \t not a uri\r" =
      ["# peers".toList, [' ', '\t', ' '] ++ "not a uri".toList ++ ['\r']] := by decide
  have hcomment : IsSpare "# peers".toList := by
    show isSkipped (trim isBlank "# peers".toList) = true
    decide
  have hredressed : Redressed (rowsOf "not a uri") (rowsOf "# peers\n \t not a uri\r") [1] := by
    have hspaces : ∀ c ∈ [' ', '\t', ' '], isBlank c = true := List.all_eq_true.mp (by decide)
    have hreturn : ∀ c ∈ ['\r'], isBlank c = true := List.all_eq_true.mp (by decide)
    rw [hrow, hrows]
    exact (Redressed.nil.surround "not a uri".toList hspaces hreturn).insert hcomment
  obtain ⟨us, hpeer, hone⟩ := hpeer
  obtain ⟨u, rfl⟩ := List.length_eq_one_iff.mp hone
  have hbehind := ((read_line_by_line _ "not a uri").1 _ hpeer).2 _ hnote
  rw [hcount] at hbehind
  obtain ⟨k, hk, hmoved⟩ := ((read_line_by_line _ "").2.2.1 _ _ hredressed).2 _ hnote
  obtain rfl : 1 = k := Option.some.inj hk
  exact ⟨u, hpeer, hnote, ((read_line_by_line _ _).1 _ hpeer).1 _ hpeer, hbehind,
    (read_line_by_line _ _).2.1 _ hnote, hredressed, hmoved⟩

end MeshNode.Catalog
