import MeshNode.Proofs.Ndp.Reading

/-!
# Rows one behind the other

A row of options is read from its front, so what has been read does not depend on what follows:

* **one row behind another** — `RowSpells.append`, `RowSpells.append_defect`: behind a row that
  spells options the reader goes on as if it began there;
* **final errors** — `RowDefect.append`: octets that come later do not make an option fit that did
  not;
* **curable errors** — `FrontDefect.exists_cure`: a row that ends inside an option can be
  completed, and then the error is another one or none;
* **turns** — `Scan.turn` is one turn of the reader. Every turn but the last takes eight octets or
  more off the row, so the turns end (`Scan.exists_run`).

`decodeOptions_append` is all of it.
-/

namespace MeshNode.Ndp

/-! ## Errors -/

/-- The errors that no octets behind a row can cure. -/
inductive WireError.IsFinal : WireError → Prop
  | zeroLength (kind : UInt8) : IsFinal (.zeroLengthOption kind)
  | optionLength (kind length : UInt8) : IsFinal (.badOptionLength kind length)
  | prefixLength (length : UInt8) : IsFinal (.badPrefixLength length)

/-- The errors that say that a row ends too early. -/
inductive WireError.IsCurable : WireError → Prop
  | truncated (length : Nat) : IsCurable (.truncated length)
  | overrun (kind : UInt8) : IsCurable (.optionOverrun kind)

variable {a b : List UInt8} {xs ys : List MessageOption} {e : WireError}

/-- A complete block is never too short. -/
theorem Block.Defect.isFinal {b : Block} (h : b.Defect e) : e.IsFinal := by
  cases h with
  | networkLength | routeLength => exact .prefixLength _
  | linkLayer | networkUnits | routeLong | routeShort | dns => exact .optionLength _ _

/-- A row is read as what it spells, or refused for its first defect. -/
theorem decodeOptions_eq_ok_iff : decodeOptions a = .ok xs ↔ RowSpells a xs :=
  eq_ok_iff_of_cases (row_spells_or_defect a) decodeOptions_of_spells decodeOptions_of_defect

theorem decodeOptions_eq_error_iff : decodeOptions a = .error e ↔ RowDefect a e :=
  eq_error_iff_of_cases (row_spells_or_defect a) decodeOptions_of_spells decodeOptions_of_defect

/-! ## Behind a row that spells options -/

theorem RowSpells.append (ha : RowSpells a xs) (hb : RowSpells b ys) :
    RowSpells (a ++ b) (xs ++ ys) := by
  obtain ⟨blocks, rfl, hblocks⟩ := ha
  induction hblocks with
  | nil => exact hb
  | cons h _ ih =>
    rw [List.flatMap_cons, List.append_assoc]
    exact ih.cons h

theorem RowSpells.append_defect (ha : RowSpells a xs) (hb : RowDefect b e) :
    RowDefect (a ++ b) e := by
  obtain ⟨blocks, rfl, hblocks⟩ := ha
  induction hblocks with
  | nil => exact hb
  | cons h _ ih =>
    rw [List.flatMap_cons, List.append_assoc]
    exact ih.cons h.fits

/-! ## Behind a row that is refused -/

theorem FrontDefect.append (h : FrontDefect a e) (he : e.IsFinal) (b : List UInt8) :
    FrontDefect (a ++ b) e := by
  cases h with
  | stray | overrun => cases he
  | zeroLength kind rest => exact .zeroLength kind (rest ++ b)
  | block hdefect =>
    rw [List.append_assoc]
    exact .block hdefect

/-- What is refused for good is refused whatever follows. -/
theorem RowDefect.append (h : RowDefect a e) (he : e.IsFinal) (b : List UInt8) :
    RowDefect (a ++ b) e := by
  obtain ⟨blocks, rest, hfits, rfl, hfront⟩ := h
  exact ⟨blocks, rest ++ b, hfits, List.append_assoc _ _ _, hfront.append he b⟩

/-- An option that is cut off can be completed. It need not fit its kind then, but it is whole. -/
theorem exists_complete_block (kind : UInt8) {units : UInt8} {rest : List UInt8}
    (hunits : units ≠ 0) (hshort : rest.length + 2 < 8 * units.toNat) :
    ∃ (c : List UInt8) (b : Block), kind :: units :: rest ++ c = b.toList := by
  have hbody : (rest ++ List.replicate (8 * units.toNat - 2 - rest.length) 0).length + 2 =
      8 * units.toNat := by
    rw [List.length_append, List.length_replicate]
    omega
  exact ⟨_, ⟨kind, units, _, hunits, hbody⟩, rfl⟩

/-- A row that ends too early at its front can be completed, to a row that spells options or has
another defect. -/
theorem FrontDefect.exists_cure (h : FrontDefect a e) (he : e.IsCurable) :
    ∃ c, (∃ ys, RowSpells (a ++ c) ys) ∨ ∃ e', e' ≠ e ∧ RowDefect (a ++ c) e' := by
  cases h with
  | stray last =>
    exact ⟨[0], .inr ⟨.zeroLengthOption last, nofun, (FrontDefect.zeroLength last []).row⟩⟩
  | zeroLength => cases he
  | @overrun kind units rest hunits hshort =>
    obtain ⟨c, b, hwhole⟩ := exists_complete_block kind hunits hshort
    refine ⟨c, ?_⟩
    rw [hwhole, ← List.append_nil b.toList]
    rcases b.spells_or_defect with ⟨o, hspells⟩ | ⟨e', hdefect⟩
    · exact .inl ⟨[o], RowSpells.nil.cons hspells⟩
    · refine .inr ⟨e', ?_, (FrontDefect.block hdefect).row⟩
      rintro rfl
      cases hdefect.isFinal
  | block hdefect => cases hdefect.isFinal <;> cases he

theorem RowDefect.exists_cure (h : RowDefect a e) (he : e.IsCurable) :
    ∃ c, decodeOptions (a ++ c) ≠ .error e := by
  obtain ⟨blocks, rest, hfits, rfl, hfront⟩ := h
  obtain ⟨xs, hblocks⟩ := exists_forall₂_spells hfits
  have hspells : RowSpells (blocks.flatMap Block.toList) xs := ⟨blocks, rfl, hblocks⟩
  obtain ⟨c, hcured⟩ := hfront.exists_cure he
  refine ⟨c, ?_⟩
  rw [List.append_assoc]
  rcases hcured with ⟨ys, hrest⟩ | ⟨e', hne, hrest⟩
  · rw [decodeOptions_of_spells (hspells.append hrest)]
    nofun
  · rw [decodeOptions_of_defect (hspells.append_defect hrest)]
    exact fun hsame => hne (Except.error.inj hsame)

/-! ## Turns -/

/-- The reader inside a row: the octets that are left, and the options so far. -/
structure Scan where
  rest : List UInt8
  options : List MessageOption

/-- What one turn of the reader comes to. -/
inductive Turn
  | ended (result : Except WireError (List MessageOption))
  | goesOn (s : Scan)

namespace Scan

/-- The reader in front of a row. -/
def start (bytes : List UInt8) : Scan := ⟨bytes, []⟩

/-- One turn: the row is at its end, or cannot be read on, or loses the block at its front. -/
def turn (s : Scan) : Turn :=
  match s.rest with
  | [] => .ended (.ok s.options)
  | [_] => .ended (.error (.truncated 1))
  | kind :: length :: _ =>
    if length = 0 then .ended (.error (.zeroLengthOption kind))
    else if s.rest.length < 8 * length.toNat then .ended (.error (.optionOverrun kind))
    else
      match decodeOption kind length (s.rest.take (8 * length.toNat)) with
      | .error e => .ended (.error e)
      | .ok o => .goesOn ⟨s.rest.drop (8 * length.toNat), s.options ++ [o]⟩

/-- The result, if the reader comes to it within some turns. -/
def run : (turns : Nat) → Scan → Option (Except WireError (List MessageOption))
  | 0, _ => none
  | turns + 1, s =>
    match s.turn with
    | .ended result => some result
    | .goesOn s' => run turns s'

theorem turn_block (b : Block) (rest : List UInt8) (options : List MessageOption) :
    turn ⟨b.toList ++ rest, options⟩ =
      match decodeOption b.kind b.units b.toList with
      | .error e => .ended (.error e)
      | .ok o => .goesOn ⟨rest, options ++ [o]⟩ := by
  have hlist : b.toList ++ rest = b.kind :: b.units :: (b.body ++ rest) := rfl
  have henough : ¬ (b.toList ++ rest).length < 8 * b.units.toNat := by
    rw [List.length_append, b.length_toList]
    omega
  have hblock : (b.toList ++ rest).take (8 * b.units.toNat) = b.toList :=
    List.take_left' b.length_toList
  have hrest : (b.toList ++ rest).drop (8 * b.units.toNat) = rest :=
    List.drop_left' b.length_toList
  rw [hlist] at henough hblock hrest ⊢
  simp only [turn, if_neg b.units_ne_zero, if_neg henough, hblock, hrest]

theorem turn_of_front (h : FrontDefect a e) (options : List MessageOption) :
    turn ⟨a, options⟩ = .ended (.error e) := by
  cases h with
  | stray last => rfl
  | zeroLength kind rest => simp only [turn, reduceIte]
  | @overrun kind units rest hunits hshort =>
    simp only [turn, if_neg hunits]
    exact if_pos hshort
  | block hdefect => rw [turn_block, decodeOption_of_defect hdefect]

/-- The reader comes to its result, one turn for every eight octets and one more being enough. -/
theorem exists_run (s : Scan) : ∃ turns ≤ s.rest.length / 8 + 1,
    s.run turns = some ((decodeOptions s.rest).map (s.options ++ ·)) := by
  obtain ⟨bytes, options⟩ := s
  induction hn : bytes.length using Nat.strongRecOn generalizing bytes options with
  | ind n ih =>
    rcases front_cases bytes with rfl | ⟨e, hfront⟩ | ⟨b, o, rest, hspells, rfl⟩
    · refine ⟨1, Nat.le_add_left 1 _, ?_⟩
      rw [decodeOptions_of_spells .nil]
      simp [run, turn, Except.map]
    · refine ⟨1, Nat.le_add_left 1 _, ?_⟩
      rw [decodeOptions_of_front hfront, run, turn_of_front hfront]
      rfl
    · have hpos := b.toNat_units_pos
      have hlen : n = 8 * b.units.toNat + rest.length := by
        rw [← hn, List.length_append, b.length_toList]
      obtain ⟨turns, hle, hrun⟩ := ih rest.length (by omega) rest (options ++ [o]) rfl
      have hle' : turns ≤ rest.length / 8 + 1 := hle
      refine ⟨turns + 1, ?_, ?_⟩
      · omega
      · rw [run, turn_block, decodeOption_of_spells hspells]
        show run turns ⟨rest, options ++ [o]⟩ = _
        rw [hrun, decodeOptions_block, decodeOption_of_spells hspells]
        show some ((decodeOptions rest).map (options ++ [o] ++ ·)) = _
        cases decodeOptions rest with
        | error e => rfl
        | ok ys => exact congrArg (some ∘ Except.ok) (List.append_assoc options [o] ys)

end Scan

/-! ## All of it -/

/-- **Rows one behind the other.** Behind a row that spells options, a second row is read as if it
stood alone: its options come after those of the first, or its error is that of both. A row that is
refused for a length of zero or for a block that does not fit is refused with the same error
whatever follows it; one that ends inside an option can be continued to a row with another error or
none. And the reader comes to its result, in at most one turn for every eight octets and one
more. -/
theorem decodeOptions_append (a : List UInt8) :
    (∀ xs, decodeOptions a = .ok xs → ∀ b,
      (∀ ys, decodeOptions b = .ok ys → decodeOptions (a ++ b) = .ok (xs ++ ys)) ∧
      ∀ e, decodeOptions b = .error e → decodeOptions (a ++ b) = .error e) ∧
    (∀ e, decodeOptions a = .error e → e.IsFinal → ∀ b, decodeOptions (a ++ b) = .error e) ∧
    (∀ e, decodeOptions a = .error e → e.IsCurable → ∃ b, decodeOptions (a ++ b) ≠ .error e) ∧
    ∃ turns ≤ a.length / 8 + 1, (Scan.start a).run turns = some (decodeOptions a) := by
  refine ⟨?_, ?_, ?_, ?_⟩
  · intro xs ha b
    have hspells := decodeOptions_eq_ok_iff.mp ha
    refine ⟨fun ys hb => ?_, fun e hb => ?_⟩
    · exact decodeOptions_of_spells (hspells.append (decodeOptions_eq_ok_iff.mp hb))
    · exact decodeOptions_of_defect (hspells.append_defect (decodeOptions_eq_error_iff.mp hb))
  · intro e ha he b
    exact decodeOptions_of_defect ((decodeOptions_eq_error_iff.mp ha).append he b)
  · intro e ha he
    exact (decodeOptions_eq_error_iff.mp ha).exists_cure he
  · obtain ⟨turns, hle, hrun⟩ := (Scan.start a).exists_run
    refine ⟨turns, hle, hrun.trans ?_⟩
    show some ((decodeOptions a).map ([] ++ ·)) = _
    cases decodeOptions a <;> rfl

/-- The block of an interface's own address. -/
def ownAddress : List UInt8 := [1, 1, 2, 0, 94, 16, 32, 48]

/-- The same block behind itself, a stray octet behind it, a network block of one unit, which no
octets cure, and a network block cut off, which some do. -/
theorem own_address_continued :
    let o := MessageOption.linkLayer true (.padded 6 [2, 0, 94, 16, 32, 48])
    (decodeOptions ownAddress = .ok [o] ∧ decodeOptions (ownAddress ++ ownAddress) = .ok [o, o]) ∧
    (decodeOptions [7] = .error (.truncated 1) ∧
      decodeOptions (ownAddress ++ [7]) = .error (.truncated 1)) ∧
    (decodeOptions (3 :: ownAddress.drop 1) = .error (.badOptionLength 3 1) ∧
      ∀ b, decodeOptions (3 :: ownAddress.drop 1 ++ b) = .error (.badOptionLength 3 1)) ∧
    (decodeOptions [3, 4, 64] = .error (.optionOverrun 3) ∧
      ∃ b, decodeOptions ([3, 4, 64] ++ b) ≠ .error (.optionOverrun 3)) := by
  intro o
  have hown : decodeOptions ownAddress = .ok [o] := by decide +kernel
  have hstray : decodeOptions [7] = .error (.truncated 1) := by decide +kernel
  have hshort : decodeOptions (3 :: ownAddress.drop 1) = .error (.badOptionLength 3 1) := by
    decide +kernel
  have hcut : decodeOptions [3, 4, 64] = .error (.optionOverrun 3) := by decide +kernel
  have hbehind := (decodeOptions_append ownAddress).1 _ hown
  exact ⟨⟨hown, (hbehind _).1 _ hown⟩, ⟨hstray, (hbehind _).2 _ hstray⟩,
    ⟨hshort, (decodeOptions_append _).2.1 _ hshort (.optionLength 3 1)⟩,
    hcut, (decodeOptions_append _).2.2.1 _ hcut (.overrun 3)⟩

end MeshNode.Ndp
