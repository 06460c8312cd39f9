import Mathlib.Data.Set.Insert
import MeshNode.Net.Interfaces

/-!
# The addresses of a machine

All addresses on the interfaces of a machine as one set, and what the two calls on addresses
do to it: a call that goes well adds or takes away exactly one address, and one that fails
changes nothing.
-/

namespace MeshNode

/-- The index of an interface and an address on it. -/
abbrev Placement := Nat × InterfaceAddress

namespace Interfaces

variable {i i' : Interfaces} {k : Nat} {a : InterfaceAddress} {l : Interface}
  {f : Interface → Interface}

/-- The addresses on all interfaces. -/
def placements (i : Interfaces) : Set Placement :=
  {p | ∃ l, i.byIndex? p.1 = some l ∧ p.2 ∈ l.addresses}

theorem byIndex?_modify (hf : ∀ l, (f l).index = l.index) (k j : Nat) :
    (i.modify k f).byIndex? j = if j = k then (i.byIndex? k).map f else i.byIndex? j := by
  obtain ⟨links⟩ := i
  show (links.map fun l => if l.index = k then f l else l).find? (·.index == j) =
    if j = k then (links.find? (·.index == k)).map f else links.find? (·.index == j)
  induction links with
  | nil => simp
  | cons l rest ih =>
    have hindex : (if l.index = k then f l else l).index = l.index := by
      split
      · exact hf l
      · rfl
    rw [List.map_cons, List.find?_cons, hindex, ih]
    by_cases hj : j = k
    · subst hj
      by_cases hl : l.index = j
      · simp [hl]
      · have hne : (l.index == j) = false := beq_false_of_ne hl
        simp [hne]
    · by_cases hl : l.index = j
      · simp [hj, hl]
      · have hne : (l.index == j) = false := beq_false_of_ne hl
        simp [hj, hne]

theorem mem_placements_modify (hf : ∀ l, (f l).index = l.index) (p : Placement) :
    p ∈ (i.modify k f).placements ↔
      (p.1 = k ∧ ∃ l, i.byIndex? k = some l ∧ p.2 ∈ (f l).addresses) ∨
        (p.1 ≠ k ∧ p ∈ i.placements) := by
  show (∃ l, (i.modify k f).byIndex? p.1 = some l ∧ p.2 ∈ l.addresses) ↔ _
  rw [byIndex?_modify hf]
  by_cases hp : p.1 = k
  · simp [hp, Option.map_eq_some_iff]
  · simp [hp, placements]

/-- All that finding the interface of a call can come to. -/
theorem target_cases (i : Interfaces) (k : Nat) (a : InterfaceAddress) :
    i.target k a = .error .indexOutOfRange ∨ i.target k a = .error .invalidArgument ∨
      (i.byIndex? k = none ∧ i.target k a = .error .noSuchDevice) ∨
      ∃ l, i.byIndex? k = some l ∧ i.target k a = .ok l := by
  unfold target
  split
  · exact Or.inl rfl
  · split
    · exact Or.inr (Or.inl rfl)
    · cases hl : i.byIndex? k with
      | none => exact Or.inr (Or.inr (Or.inl ⟨rfl, rfl⟩))
      | some l => exact Or.inr (Or.inr (Or.inr ⟨l, rfl, rfl⟩))

theorem target_eq_ok (h : i.target k a = .ok l) : i.byIndex? k = some l := by
  rcases i.target_cases k a with heq | heq | ⟨-, heq⟩ | ⟨l', hl, heq⟩
  · cases h.symm.trans heq
  · cases h.symm.trans heq
  · cases h.symm.trans heq
  · cases h.symm.trans heq
    exact hl

theorem mem_placements (hl : i.byIndex? k = some l) : (k, a) ∈ i.placements ↔ a ∈ l.addresses := by
  constructor
  · rintro ⟨l', hl', ha⟩
    rw [hl] at hl'
    cases hl'
    exact ha
  · intro ha
    exact ⟨l, hl, ha⟩

/-- An address that could be added was not there before. -/
theorem placements_addAddress (h : i.addAddress k a = (i', .ok ())) :
    (k, a) ∉ i.placements ∧ i'.placements = insert (k, a) i.placements := by
  unfold addAddress at h
  split at h
  · cases h
  · next l htarget =>
    have hl := target_eq_ok htarget
    split at h
    · cases h
    · split at h
      · cases h
      · next hnew =>
        cases h
        have hfresh : (k, a) ∉ i.placements := by
          rw [mem_placements hl]
          intro ha
          exact hnew (List.any_eq_true.mpr ⟨a, ha, beq_self_eq_true _⟩)
        have hindex : ∀ l : Interface,
            ({ l with addresses := a :: l.addresses } : Interface).index = l.index := fun _ => rfl
        refine ⟨hfresh, Set.ext fun p => ?_⟩
        rw [mem_placements_modify hindex, Set.mem_insert_iff]
        obtain ⟨j, b⟩ := p
        by_cases hj : j = k
        · subst hj
          simp [hl, mem_placements hl]
        · simp [hj]

theorem addAddress_error {e : AddressFault} (h : i.addAddress k a = (i', .error e)) : i' = i := by
  unfold addAddress at h
  split at h
  · cases h
    rfl
  · split at h
    · cases h
      rfl
    · split at h
      · cases h
        rfl
      · cases h

theorem placements_removeAddress (h : i.removeAddress k a = (i', .ok ())) :
    i'.placements = i.placements \ {(k, a)} := by
  unfold removeAddress at h
  split at h
  · cases h
  · next l htarget =>
    have hl := target_eq_ok htarget
    split at h
    · cases h
      have hindex : ∀ l : Interface,
          ({ l with addresses := l.addresses.filter (· != a) } : Interface).index = l.index :=
        fun _ => rfl
      refine Set.ext fun p => ?_
      rw [mem_placements_modify hindex, Set.mem_sdiff, Set.mem_singleton_iff]
      obtain ⟨j, b⟩ := p
      by_cases hj : j = k
      · subst hj
        simp [hl, mem_placements hl]
      · simp [hj]
    · cases h

/-- A call that fails to take an address away changes nothing, and the two faults that say so
mean that the address is not there. -/
theorem removeAddress_error {e : AddressFault} (h : i.removeAddress k a = (i', .error e)) :
    i' = i ∧ (e = .notAvailable ∨ e = .noSuchDevice → (k, a) ∉ i.placements) := by
  unfold removeAddress at h
  split at h
  · next htarget =>
    cases h
    refine ⟨rfl, fun hfault => ?_⟩
    rintro ⟨l, hl, -⟩
    rcases i.target_cases k a with heq | heq | ⟨hnone, -⟩ | ⟨l', -, heq⟩
    · cases htarget.symm.trans heq
      exact absurd hfault (by decide)
    · cases htarget.symm.trans heq
      exact absurd hfault (by decide)
    · cases hnone.symm.trans hl
    · cases htarget.symm.trans heq
  · next l htarget =>
    have hl := target_eq_ok htarget
    split at h
    · cases h
    · next hgone =>
      cases h
      refine ⟨rfl, fun _ => ?_⟩
      rw [mem_placements hl]
      exact hgone

end Interfaces

end MeshNode
