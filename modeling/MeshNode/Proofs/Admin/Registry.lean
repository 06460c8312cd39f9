import MeshNode.Admin.Registry
import MeshNode.Proofs.Text.Utf8
import Mathlib.Data.List.Perm.Basic
import Mathlib.Data.String.Basic
import Mathlib.Order.Basic

/-!
# The registry of hooks as a map

What a registry answers follows from its history alone: from the hooks that were added while their
names were free.

* **sorted lists** — `insert_perm`, `sorted_insert`: adding puts a hook where it belongs;
* **names** — `find?_eq_some_iff`: in a list of hooks with names of their own a name finds its
  hook, wherever it stands;
* **acts** — `Act`, `Registry.act`; `added` are the hooks of a history whose adding succeeded;
* **the map** — `Registry.Maps`: a registry holds certain hooks in the order of their names;
  `maps_act` is one act, `maps_after` a history;
* **all of it** — `first_come`.
-/

namespace MeshNode.Admin

open MeshNode.Text

variable {h k : Hook} {hs ks : List Hook} {name : String} {r : Registry}

/-! ## Sorted lists -/

/-- The names increase. -/
def Sorted (hs : List Hook) : Prop := hs.Pairwise (·.name < ·.name)

/-- No name occurs twice. -/
def OwnNames (hs : List Hook) : Prop := hs.Pairwise (·.name ≠ ·.name)

theorem Sorted.ownNames (h : Sorted hs) : OwnNames hs := h.imp fun hlt => ne_of_lt hlt

theorem OwnNames.perm (h : OwnNames hs) (hperm : hs.Perm ks) : OwnNames ks :=
  (hperm.pairwise_iff fun hne => hne.symm).mp h

/-- The same hooks have one order by name only. -/
theorem Sorted.eq_of_perm (hhs : Sorted hs) (hks : Sorted ks) (hperm : hs.Perm ks) : hs = ks :=
  hperm.eq_of_pairwise (fun _ _ _ _ hlt hgt => absurd hlt (lt_asymm hgt)) hhs hks

theorem insert_perm (h : Hook) (hs : List Hook) : (Registry.insert h hs).Perm (h :: hs) := by
  induction hs with
  | nil => rfl
  | cons k rest ih =>
    unfold Registry.insert
    split
    · rfl
    · exact (ih.cons k).trans (.swap h k rest)

/-- A hook of a new name is put between those of smaller and those of greater names. -/
theorem sorted_insert (hhs : Sorted hs) (hnew : ∀ k ∈ hs, k.name ≠ h.name) :
    Sorted (Registry.insert h hs) := by
  induction hs with
  | nil => exact List.pairwise_singleton _ h
  | cons k rest ih =>
    obtain ⟨hfirst, hrest⟩ := List.pairwise_cons.mp hhs
    unfold Registry.insert
    split
    · next hlt =>
      refine List.pairwise_cons.mpr ⟨fun other hother => ?_, hhs⟩
      rcases List.mem_cons.mp hother with rfl | hother
      · exact hlt
      · exact lt_trans hlt (hfirst other hother)
    · next hle =>
      have hlt : k.name < h.name :=
        lt_of_le_of_ne (le_of_not_gt hle) (hnew k List.mem_cons_self)
      refine List.pairwise_cons.mpr ⟨fun other hother => ?_,
        ih hrest fun other hother => hnew other (List.mem_cons_of_mem k hother)⟩
      rcases List.mem_cons.mp ((insert_perm h rest).subset hother) with rfl | hother
      · exact hlt
      · exact hfirst other hother

/-! ## Names -/

theorem find?_eq_some_iff (h : OwnNames hs) :
    hs.find? (·.name == name) = some k ↔ k ∈ hs ∧ k.name = name := by
  induction hs with
  | nil => exact iff_of_false nofun fun hmem => nomatch hmem.1
  | cons first rest ih =>
    obtain ⟨hfirst, hrest⟩ := List.pairwise_cons.mp h
    rw [List.find?_cons, List.mem_cons]
    by_cases hname : first.name = name
    · rw [beq_iff_eq.mpr hname]
      constructor
      · rintro ⟨⟩
        exact ⟨Or.inl rfl, hname⟩
      · rintro ⟨rfl | hmem, hk⟩
        · rfl
        · exact absurd (hname.trans hk.symm) (hfirst k hmem)
    · rw [beq_false_of_ne hname]
      constructor
      · intro hfind
        obtain ⟨hmem, hk⟩ := (ih hrest).mp hfind
        exact ⟨Or.inr hmem, hk⟩
      · rintro ⟨rfl | hmem, hk⟩
        · exact absurd hk hname
        · exact (ih hrest).mpr ⟨hmem, hk⟩

/-- A name finds the same hook in whichever order they stand. -/
theorem find?_perm (h : OwnNames hs) (hperm : hs.Perm ks) (name : String) :
    hs.find? (·.name == name) = ks.find? (·.name == name) := by
  apply Option.ext
  intro k
  rw [find?_eq_some_iff h, find?_eq_some_iff (h.perm hperm), hperm.mem_iff]

theorem find?_eq_none_iff :
    hs.find? (·.name == name) = none ↔ ∀ k ∈ hs, k.name ≠ name := by
  rw [List.find?_eq_none]
  refine forall₂_congr fun k _ => ?_
  rw [beq_iff_eq]

/-! ## Acts -/

/-- Something that is asked of a registry. -/
inductive Act
  | add (h : Hook)
  | call (name : String) (args : Json)
  | list
  | len

/-- What is answered. -/
inductive Answer
  | added (result : Except HookError Unit)
  | value (result : Except HookError Json)
  | names (entries : List (String × String))
  | count (n : Nat)

/-- The hook that an act brings. -/
def Act.hook? : Act → Option Hook
  | .add h => some h
  | _ => none

namespace Registry

/-- The registry after an act, and the answer. -/
def act (r : Registry) : Act → Registry × Answer
  | .add h =>
    match r.add h with
    | .ok r => (r, .added (.ok ()))
    | .error e => (r, .added (.error e))
  | .call name args => (r, .value (r.call name args))
  | .list => (r, .names r.list)
  | .len => (r, .count r.size)

/-- The registry after some acts. -/
def after (r : Registry) (as : List Act) : Registry := as.foldl (fun r a => (r.act a).1) r

/-- The answers to some acts. -/
def answers (r : Registry) : List Act → List Answer
  | [] => []
  | a :: as => (r.act a).2 :: (r.act a).1.answers as

/-- The hooks that some acts have added, the first one first: those whose adding succeeded. -/
def added (r : Registry) : List Act → List Hook
  | [] => []
  | a :: as => (a.hook?.filter fun h => (r.add h).isOk).toList ++ (r.act a).1.added as

theorem add_of_free (h : r.find? k.name = none) : r.add k = .ok ⟨insert k r.hooks⟩ := by
  rw [add, h]

theorem add_of_taken (h : r.find? k.name ≠ none) : r.add k = .error (.duplicate k.name) := by
  obtain ⟨other, hother⟩ := Option.ne_none_iff_exists'.mp h
  rw [add, hother]

theorem act_of_free (h : r.find? k.name = none) :
    r.act (.add k) = (⟨insert k r.hooks⟩, .added (.ok ())) := by
  rw [act, add_of_free h]

theorem act_of_taken (h : r.find? k.name ≠ none) :
    r.act (.add k) = (r, .added (.error (.duplicate k.name))) := by
  rw [act, add_of_taken h]

/-! ## The map -/

/-- A registry holds certain hooks, in the order of their names. -/
structure Maps (r : Registry) (hs : List Hook) : Prop where
  sorted : Sorted r.hooks
  perm : r.hooks.Perm hs

theorem maps_empty : empty.Maps [] := ⟨.nil, .nil⟩

theorem Maps.ownNames (h : r.Maps hs) : OwnNames hs := h.sorted.ownNames.perm h.perm

theorem Maps.find?_eq (h : r.Maps hs) (name : String) :
    r.find? name = hs.find? (·.name == name) :=
  find?_perm h.sorted.ownNames h.perm name

/-- Registries that hold the same hooks are the same. -/
theorem Maps.eq {r' : Registry} (h : r.Maps hs) (h' : r'.Maps ks) (hperm : hs.Perm ks) :
    r = r' := by
  cases r
  cases r'
  exact congrArg _ (h.sorted.eq_of_perm h'.sorted ((h.perm.trans hperm).trans h'.perm.symm))

theorem Maps.append_nil (h : r.Maps hs) : r.Maps (hs ++ []) := by
  rw [List.append_nil]
  exact h

/-- An act adds the hook that it brings if the name is free, and nothing else. -/
theorem maps_act (h : r.Maps hs) (a : Act) :
    (r.act a).1.Maps (hs ++ (a.hook?.filter fun k => (r.add k).isOk).toList) := by
  cases a with
  | add k =>
    show (r.act (.add k)).1.Maps (hs ++ ((some k).filter fun k => (r.add k).isOk).toList)
    by_cases hfree : r.find? k.name = none
    · rw [act_of_free hfree, Option.filter_some, add_of_free hfree]
      have hnew : ∀ other ∈ r.hooks, other.name ≠ k.name := find?_eq_none_iff.mp hfree
      refine ⟨sorted_insert h.sorted hnew, ?_⟩
      exact (insert_perm k r.hooks).trans ((h.perm.cons k).trans (List.perm_append_singleton k hs).symm)
    · rw [act_of_taken hfree, Option.filter_some, add_of_taken hfree]
      exact h.append_nil
  | call name args => exact h.append_nil
  | list => exact h.append_nil
  | len => exact h.append_nil

theorem maps_after (h : r.Maps hs) (as : List Act) : (r.after as).Maps (hs ++ r.added as) := by
  induction as generalizing r hs with
  | nil => exact h.append_nil
  | cons a as ih =>
    show ((r.act a).1.after as).Maps (hs ++ (_ ++ (r.act a).1.added as))
    rw [← List.append_assoc]
    exact ih (maps_act h a)

/-- Hooks whose names are all free and differ are all added. -/
theorem added_adds (h : r.Maps hs) (hown : OwnNames (hs ++ ks)) : r.added (ks.map .add) = ks := by
  induction ks generalizing r hs with
  | nil => rfl
  | cons k ks ih =>
    have hfree : r.find? k.name = none := by
      rw [h.find?_eq, find?_eq_none_iff]
      exact fun other hother =>
        (List.pairwise_append.mp hown).2.2 other hother k List.mem_cons_self
    have hnext := maps_act h (.add k)
    have hkept : ((Act.add k).hook?.filter fun k => (r.add k).isOk).toList = [k] := by
      show ((some k).filter fun k => (r.add k).isOk).toList = [k]
      rw [Option.filter_some, add_of_free hfree]
      rfl
    rw [hkept] at hnext
    show ((Act.add k).hook?.filter fun k => (r.add k).isOk).toList ++
      (r.act (.add k)).1.added (ks.map .add) = k :: ks
    rw [hkept, ih hnext (by rw [List.append_assoc]; exact hown)]
    rfl

/-- Names increase by their octets. -/
theorem Maps.pairwise_list (h : r.Maps hs) :
    r.list.Pairwise fun x y => utf8 x.1 < utf8 y.1 :=
  List.pairwise_map.mpr (h.sorted.imp fun hlt => utf8_lt_utf8 hlt)

theorem Maps.mem_list_iff (h : r.Maps hs) {description : String} :
    (name, description) ∈ r.list ↔
      ∃ k, hs.find? (·.name == name) = some k ∧ k.description = description := by
  rw [list, List.mem_map]
  refine exists_congr fun k => ?_
  rw [find?_eq_some_iff h.ownNames, h.perm.mem_iff, Prod.mk.injEq, and_assoc]

/-- What a call of a name gives. -/
theorem Maps.call_eq (h : r.Maps hs) (name : String) (args : Json) :
    r.call name args = (hs.find? (·.name == name)).elim (.error (.unknown name))
      fun k => k.handler args := by
  rw [call, h.find?_eq]
  cases hs.find? (·.name == name) with
  | none => rfl
  | some k => rfl

theorem Maps.call_eq_unknown (h : r.Maps hs) (name : String) (args : Json) :
    r.call name args = .error (.unknown name) ↔ (∀ k ∈ hs, k.name ≠ name) ∨
      ∃ k, hs.find? (·.name == name) = some k ∧ k.handler args = .error (.unknown name) := by
  rw [h.call_eq, ← find?_eq_none_iff]
  cases hs.find? (·.name == name) with
  | none => exact iff_of_true rfl (Or.inl rfl)
  | some k =>
    constructor
    · exact fun hcall => Or.inr ⟨k, rfl, hcall⟩
    · rintro (hnone | ⟨_, ⟨⟩, hcall⟩)
      · cases hnone
      · exact hcall

/-- A name that is taken is refused and changes nothing; any other is added. -/
theorem Maps.act_add (h : r.Maps hs) (k : Hook) :
    (∃ other ∈ hs, other.name = k.name) ∧
        r.act (.add k) = (r, .added (.error (.duplicate k.name))) ∨
      (∀ other ∈ hs, other.name ≠ k.name) ∧ (r.act (.add k)).2 = .added (.ok ()) := by
  by_cases hfree : r.find? k.name = none
  · refine Or.inr ⟨?_, by rw [act_of_free hfree]⟩
    rw [h.find?_eq] at hfree
    exact find?_eq_none_iff.mp hfree
  · refine Or.inl ⟨?_, act_of_taken hfree⟩
    rw [h.find?_eq, ← ne_eq, ← Option.isSome_iff_ne_none, List.find?_isSome] at hfree
    simpa only [beq_iff_eq] using hfree

/-! ## First come -/

/-- Whatever was asked of a registry before, each name belongs to the hook that was first added
under it. Hooks with names of their own may be added in any order. -/
theorem first_come (as : List Act) :
    let r := empty.after as
    let added := empty.added as
    (∀ h, ((r.act (.add h)).2 = .added (.error (.duplicate h.name)) ↔
        ∃ k ∈ added, k.name = h.name) ∧
      ((r.act (.add h)).2 = .added (.ok ()) ↔ ∀ k ∈ added, k.name ≠ h.name) ∧
      ((r.act (.add h)).2 ≠ .added (.ok ()) →
        ∀ later, (r.act (.add h)).1.answers later = r.answers later)) ∧
    (∀ name args, (r.act (.call name args)).2 =
        .value ((added.find? (·.name == name)).elim (.error (.unknown name))
          fun h => h.handler args) ∧
      ((r.act (.call name args)).2 = .value (.error (.unknown name)) ↔
        (∀ k ∈ added, k.name ≠ name) ∨ ∃ h, added.find? (·.name == name) = some h ∧
          h.handler args = .error (.unknown name))) ∧
    (∃ entries, (r.act .list).2 = .names entries ∧ (r.act .len).2 = .count entries.length ∧
      (entries.Pairwise fun x y => utf8 x.1 < utf8 y.1) ∧
      ∀ name description, (name, description) ∈ entries ↔
        ∃ h, added.find? (·.name == name) = some h ∧ h.description = description) ∧
    ∀ hs ks : List Hook, hs.Perm ks → (hs.map (·.name)).Nodup →
      ∀ later, (empty.after (hs.map .add)).answers later =
        (empty.after (ks.map .add)).answers later := by
  intro r added
  have hr : r.Maps added := maps_after maps_empty as
  refine ⟨fun h => ?_, fun name args => ?_, ?_, ?_⟩
  · rcases hr.act_add h with ⟨⟨k, hk, hname⟩, hact⟩ | ⟨hfree, hact⟩
    · rw [hact]
      refine ⟨iff_of_true rfl ⟨k, hk, hname⟩, iff_of_false nofun ?_, fun _ _ => rfl⟩
      exact fun hfree => hfree k hk hname
    · rw [hact]
      refine ⟨iff_of_false nofun ?_, iff_of_true rfl hfree, fun hne => absurd rfl hne⟩
      exact fun ⟨k, hk, hname⟩ => hfree k hk hname
  · have hcall : (r.act (.call name args)).2 = .value (r.call name args) := rfl
    rw [hcall, Answer.value.injEq, Answer.value.injEq]
    exact ⟨hr.call_eq name args, hr.call_eq_unknown name args⟩
  · refine ⟨r.list, rfl, ?_, hr.pairwise_list, fun name description => hr.mem_list_iff⟩
    rw [list, List.length_map]
    rfl
  · intro hs ks hperm hnames later
    have hown : OwnNames hs := List.pairwise_map.mp hnames
    have hhs := maps_after maps_empty (hs.map .add)
    have hks := maps_after maps_empty (ks.map .add)
    rw [List.nil_append, added_adds maps_empty hown] at hhs
    rw [List.nil_append, added_adds maps_empty (hown.perm hperm)] at hks
    rw [hhs.eq hks hperm]

/-- After `echo` was added as `a`, another hook of that name is refused without a trace; and it does
not matter whether `a` or `é` is added first. -/
theorem second_a_refused (later : List Act) :
    let a : Hook := ⟨"a", "gives its arguments back", echo⟩
    let other : Hook := ⟨"a", "gives nothing", constant .null⟩
    let accented : Hook := ⟨"é", "fails", failing (.failed "no")⟩
    let r := empty.after [.add a, .list]
    ((r.act (.add other)).2 ≠ .added (.ok ()) ∧
      (r.act (.add other)).1.answers later = r.answers later) ∧
    [accented, a].Perm [a, accented] ∧ ([accented, a].map (·.name)).Nodup ∧
      (empty.after ([accented, a].map .add)).answers later =
        (empty.after ([a, accented].map .add)).answers later := by
  intro a other accented r
  have hrefused : (r.act (.add other)).2 ≠ .added (.ok ()) := nofun
  have hperm : [accented, a].Perm [a, accented] := .swap a accented []
  have hnames : ([accented, a].map (·.name)).Nodup := by decide
  exact ⟨⟨hrefused, ((first_come [.add a, .list]).1 other).2.2 hrefused later⟩,
    hperm, hnames, (first_come []).2.2.2 [accented, a] [a, accented] hperm hnames later⟩

/-- A hook may itself answer that its name is unknown, and the caller cannot tell. -/
theorem unknown_of_added :
    let as := [Act.add ⟨"x", "", failing (.unknown "x")⟩]
    (∃ k ∈ empty.added as, k.name = "x") ∧
      ((empty.after as).act (.call "x" .null)).2 = .value (.error (.unknown "x")) := by
  refine ⟨⟨⟨"x", "", failing (.unknown "x")⟩, ?_, rfl⟩, rfl⟩
  exact List.mem_singleton.mpr rfl

end Registry

end MeshNode.Admin
