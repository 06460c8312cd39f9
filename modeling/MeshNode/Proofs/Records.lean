/-!
# Records and results

What is noted of calls, readers and pipelines is kept in lists that grow at their end and
whose entries are changed in place. Calls one after the other have a result if each of them
has.

* **growing** — `getElem?_concat_eq_some`: what stands at a place;
* **columns** — a field of all entries makes a column; `map_map_eq`, `map_modify_eq` and
  `map_set_eq` say that a change keeps the columns of the fields it leaves alone;
* **keys** — `lookup_cons_of_ne`: an entry of another name does not count;
* **results** — `ok_bind`, `bind_eq_ok`, `mapError_eq_ok`, and for errors `bind_eq_error`,
  `mapError_eq_error`; `eq_ok_iff_of_cases` and `eq_error_iff_of_cases` for results that two
  relations describe, one of which always holds.
-/

namespace MeshNode

variable {α β : Type} {f : α → α} {g : α → β}

theorem getElem?_concat_eq_some {as : List α} {a b : α} {i : Nat} :
    (as ++ [a])[i]? = some b ↔ as[i]? = some b ∨ as.length = i ∧ a = b := by
  rw [List.getElem?_append]
  by_cases hi : i < as.length
  · rw [if_pos hi]
    have hne : as.length ≠ i := Nat.ne_of_gt hi
    simp only [hne, false_and, or_false]
  · rw [if_neg hi, List.getElem?_eq_none (Nat.le_of_not_lt hi), List.getElem?_singleton]
    by_cases hlast : as.length = i
    · rw [if_pos (by omega)]
      simp only [hlast, Option.some.injEq, true_and, false_or, reduceCtorEq]
    · rw [if_neg (by omega)]
      simp only [hlast, false_and, or_false, reduceCtorEq]

theorem map_map_eq (h : ∀ a, g (f a) = g a) (as : List α) : (as.map f).map g = as.map g := by
  rw [List.map_map]
  exact List.map_congr_left fun a _ => h a

theorem map_modify_eq (h : ∀ a, g (f a) = g a) (as : List α) (i : Nat) :
    (as.modify i f).map g = as.map g := by
  apply List.ext_getElem?
  intro j
  rw [List.getElem?_map, List.getElem?_map, List.getElem?_modify]
  cases as[j]? with
  | none => rfl
  | some a =>
    by_cases hij : i = j
    · simp [hij, h]
    · simp [hij]

theorem map_set_eq {as : List α} {i : Nat} {a b : α} (hi : as[i]? = some a) (h : g b = g a) :
    (as.set i b).map g = as.map g := by
  obtain ⟨hlt, rfl⟩ := List.getElem?_eq_some_iff.mp hi
  rw [List.map_set, h, ← List.map_set, List.set_getElem_self]

theorem lookup_cons_of_ne [BEq α] [LawfulBEq α] {a k : α} (h : a ≠ k) (b : β)
    (entries : List (α × β)) : ((k, b) :: entries).lookup a = entries.lookup a := by
  rw [← List.singleton_append, List.lookup_append, List.lookup_eq_none_iff.mpr, Option.none_or]
  intro entry hentry
  rw [List.mem_singleton.mp hentry]
  exact bne_iff_ne.mpr h

theorem mapError_eq_ok {ε δ : Type} {f : ε → δ} {x : Except ε α} {a : α} :
    x.mapError f = .ok a ↔ x = .ok a := by
  cases x with
  | error e => exact ⟨nofun, nofun⟩
  | ok b => exact ⟨fun h => congrArg _ (Except.ok.inj h), fun h => congrArg _ (Except.ok.inj h)⟩

theorem ok_bind {ε : Type} (a : α) (f : α → Except ε β) : (Except.ok a >>= f) = f a := rfl

theorem bind_eq_ok {ε : Type} {x : Except ε α} {f : α → Except ε β} {b : β} :
    (x >>= f) = .ok b ↔ ∃ a, x = .ok a ∧ f a = .ok b := by
  cases x with
  | error e => exact ⟨nofun, nofun⟩
  | ok a =>
    constructor
    · exact fun h => ⟨a, rfl, h⟩
    · rintro ⟨_, ⟨⟩, h⟩
      exact h

theorem mapError_eq_error {ε δ : Type} {f : ε → δ} {x : Except ε α} {e : δ} :
    x.mapError f = .error e ↔ ∃ cause, x = .error cause ∧ f cause = e := by
  cases x with
  | error cause =>
    constructor
    · exact fun h => ⟨cause, rfl, Except.error.inj h⟩
    · rintro ⟨_, ⟨⟩, rfl⟩
      rfl
  | ok a => exact ⟨nofun, nofun⟩

theorem bind_eq_error {ε : Type} {x : Except ε α} {f : α → Except ε β} {e : ε} :
    (x >>= f) = .error e ↔ x = .error e ∨ ∃ a, x = .ok a ∧ f a = .error e := by
  cases x with
  | error cause =>
    constructor
    · exact fun h => Or.inl (congrArg _ (Except.error.inj h))
    · rintro (h | ⟨_, ⟨⟩, -⟩)
      exact congrArg _ (Except.error.inj h)
  | ok a =>
    constructor
    · exact fun h => Or.inr ⟨a, rfl, h⟩
    · rintro (h | ⟨_, ⟨⟩, h⟩)
      · cases h
      · exact h

section

variable {ε : Type} {x : Except ε α} {P : α → Prop} {Q : ε → Prop}

theorem eq_ok_iff_of_cases (hcases : (∃ a, P a) ∨ ∃ e, Q e) (hok : ∀ {a}, P a → x = .ok a)
    (herror : ∀ {e}, Q e → x = .error e) {a : α} : x = .ok a ↔ P a := by
  refine ⟨fun h => ?_, hok⟩
  rcases hcases with ⟨b, hb⟩ | ⟨e, he⟩
  · obtain rfl := Except.ok.inj ((hok hb).symm.trans h)
    exact hb
  · cases (herror he).symm.trans h

theorem eq_error_iff_of_cases (hcases : (∃ a, P a) ∨ ∃ e, Q e) (hok : ∀ {a}, P a → x = .ok a)
    (herror : ∀ {e}, Q e → x = .error e) {e : ε} : x = .error e ↔ Q e := by
  refine ⟨fun h => ?_, herror⟩
  rcases hcases with ⟨a, ha⟩ | ⟨e', he⟩
  · cases (hok ha).symm.trans h
  · obtain rfl := Except.error.inj ((herror he).symm.trans h)
    exact he

end

end MeshNode
