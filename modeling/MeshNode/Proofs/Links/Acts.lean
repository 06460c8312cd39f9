import Mathlib.Logic.Basic
import MeshNode.Links.Table
import MeshNode.Proofs.Records

/-!
# The acts on a link table

Calls, readers and whoever closes all links share the table, and any of them may go
on at any time. An act is what one of them does without interruption, and a history
is a list of acts in any order.

* **insertions** — `insertion?`: the one act of a call that changes the table, if it
  enters its link; `act_of_insertion` says what it changes, and `act_of_call` that the
  other acts of a call leave the table and the readers alone;
* **ends of calls** — `linked_act_iff`: a call ends with a link by an insertion only;
* **removals** — `remove_of_removing`, `LinkTable.mem_entries_removeIf`: what a reader takes away;
  `table_act` says that the table grows by insertions only.
-/

namespace MeshNode.Links

/-! ## The table -/

namespace LinkTable

variable {t : LinkTable} {key : String} {e : String × Link}

theorem contains_eq_false_iff : t.contains key = false ↔ key ∉ t.entries.map (·.1) := by
  rw [contains, find?, Option.isSome_eq_false_iff, Option.isNone_iff_eq_none,
    List.lookup_eq_none_iff, List.mem_map]
  constructor
  · rintro h ⟨e, he, rfl⟩
    have hne := h e he
    simp at hne
  · intro h e he
    rw [bne_iff_ne]
    exact fun heq => h ⟨e, he, heq.symm⟩

theorem contains_of_mem (h : e ∈ t.entries) : t.contains e.1 = true := by
  rw [← Bool.not_eq_false, contains_eq_false_iff, not_not]
  exact List.mem_map_of_mem h

theorem mem_entries_removeIf {id : Nat} :
    e ∈ (t.removeIf key id).entries ↔ e ∈ t.entries ∧ ¬ (e.1 = key ∧ e.2.id = id) := by
  show e ∈ t.entries.filter _ ↔ _
  rw [List.mem_filter, Bool.not_eq_true', ← Bool.not_eq_true, Bool.and_eq_true, beq_iff_eq,
    beq_iff_eq]

end LinkTable

/-! ## Acts -/

/-- Something that nothing can interrupt. -/
inductive Act
  /-- A call begins, -/
  | begin (uri : Url)
  /-- looks into the table, -/
  | check (i : Nat)
  /-- comes to the end of its dial, -/
  | dialEnds (i : Nat) (result : Except CallError Connection)
  /-- and enters its link or is refused. -/
  | enter (i : Nat)
  | hangUp (connection : Nat)
  /-- A reader takes its link away. -/
  | remove (j : Nat)
  | closeAll

/-- Whether an act is one of a call. -/
def Act.isCall : Act → Bool
  | .begin _ => true
  | .check _ => true
  | .dialEnds _ _ => true
  | .enter _ => true
  | _ => false

/-- The entry of a link: the call that made it, the key and the link, and its connection. -/
structure Insertion where
  call : Nat
  key : String
  link : Link
  connection : Nat
deriving DecidableEq

namespace Insertion

/-- What stands in the table. -/
def entry (n : Insertion) : String × Link := (n.key, n.link)

/-- The reader that begins. -/
def reader (n : Insertion) : Reader := ⟨n.key, n.link.id, n.connection, .reading⟩

end Insertion

namespace Exchange

variable {x : Exchange} {a : Act} {n : Insertion} {i id : Nat} {uri : Url}

/-- The exchange after an act. -/
def act (x : Exchange) : Act → Exchange
  | .begin uri => x.begin uri
  | .check i => x.check i
  | .dialEnds i result => x.dialEnds i result
  | .enter i => x.enter i
  | .hangUp connection => x.hangUp connection
  | .remove j => x.remove j
  | .closeAll => x.closeAll

/-- The exchange after some acts. -/
def after (x : Exchange) (as : List Act) : Exchange := as.foldl act x

@[simp] theorem after_nil (x : Exchange) : x.after [] = x := rfl

theorem after_cons (x : Exchange) (a : Act) (as : List Act) :
    x.after (a :: as) = (x.act a).after as := rfl

/-- The link that an act enters, if it enters one. -/
def insertion? (x : Exchange) : Act → Option Insertion
  | .enter i =>
    match x.calls[i]? with
    | some ⟨uri, .entering c⟩ =>
      if x.table.contains uri.render then none
      else some ⟨i, uri.render, ⟨x.table.nextId, remoteText uri.render c⟩, c.number⟩
    | _ => none
  | _ => none

/-- The links that were entered in a history, one after the other. -/
def insertions (x : Exchange) : List Act → List Insertion
  | [] => []
  | a :: as => (x.insertion? a).toList ++ (x.act a).insertions as

/-! ## Acts of a call -/

theorem insertion?_eq_some (h : x.insertion? a = some n) :
    ∃ uri c, a = .enter n.call ∧ x.calls[n.call]? = some ⟨uri, .entering c⟩ ∧
      x.table.contains uri.render = false ∧
      n = ⟨n.call, uri.render, ⟨x.table.nextId, remoteText uri.render c⟩, c.number⟩ := by
  cases a with
  | enter i =>
    simp only [insertion?] at h
    split at h
    · next uri c hcall =>
      split at h
      · cases h
      · next hfree =>
        cases h
        exact ⟨uri, c, rfl, hcall, Bool.not_eq_true _ ▸ hfree, rfl⟩
    · cases h
  | _ => cases h

/-- Entering a link puts it behind all others, begins a reader behind all others, and uses up the
number of the link. -/
theorem act_of_insertion (h : x.insertion? a = some n) :
    x.act a = ⟨⟨x.table.entries ++ [n.entry], x.table.nextId + 1⟩,
      (x.setStage n.call (.linked n.link.id)).calls, x.readers ++ [n.reader]⟩ := by
  obtain ⟨uri, c, rfl, hcall, hfree, hn⟩ := insertion?_eq_some h
  have hinsert : x.table.insert? uri.render (remoteText uri.render c) = some (x.table.nextId,
      ⟨x.table.entries ++ [(uri.render, ⟨x.table.nextId, remoteText uri.render c⟩)], x.table.nextId + 1⟩) := by
    rw [LinkTable.insert?, hfree]
    rfl
  rw [act, enter, hcall]
  simp only [hinsert]
  rw [hn]
  rfl

/-- A call that comes to its entry while there is a link under its key is refused. -/
theorem enter_of_contains {c : Connection} (hcall : x.calls[i]? = some ⟨uri, .entering c⟩)
    (h : x.table.contains uri.render = true) :
    x.act (.enter i) = x.setStage i (.failed (.alreadyConnected uri.render)) := by
  rw [act, enter, hcall]
  simp only [LinkTable.insert?, h, if_true]

/-- Nothing was changed but the stage of a call at most, which had no link and has none now. -/
def Stepped (x x' : Exchange) : Prop :=
  x' = x ∨ ∃ i uri stage stage', x.calls[i]? = some ⟨uri, stage⟩ ∧ (∀ id, stage ≠ .linked id) ∧
    (∀ id, stage' ≠ .linked id) ∧ x' = x.setStage i stage'

theorem stepped_check (x : Exchange) (i : Nat) : x.Stepped (x.check i) := by
  unfold check
  split
  · next uri hi =>
    refine Or.inr ⟨i, uri, _, _, hi, nofun, ?_, rfl⟩
    split <;> exact nofun
  · exact Or.inl rfl

theorem stepped_dialEnds (x : Exchange) (i : Nat) (result : Except CallError Connection) :
    x.Stepped (x.dialEnds i result) := by
  unfold dialEnds
  split
  · next uri hi =>
    refine Or.inr ⟨i, uri, _, _, hi, nofun, ?_, rfl⟩
    split <;> exact nofun
  · exact Or.inl rfl

theorem stepped_enter (h : x.insertion? (.enter i) = none) : x.Stepped (x.enter i) := by
  by_cases hentering : ∃ uri c, x.calls[i]? = some ⟨uri, .entering c⟩
  · obtain ⟨uri, c, hi⟩ := hentering
    cases hfull : x.table.contains uri.render with
    | false =>
      simp only [insertion?, hi, hfull] at h
      cases h
    | true =>
      refine Or.inr ⟨i, uri, _, .failed (.alreadyConnected uri.render), hi, nofun, nofun, ?_⟩
      exact enter_of_contains hi hfull
  · left
    unfold enter
    split
    · next uri c hi => exact absurd ⟨uri, c, hi⟩ hentering
    · rfl

/-- An act of a call that enters no link begins it or sets its stage. -/
theorem stepped_act (hcall : a.isCall = true) (h : x.insertion? a = none) :
    (∃ uri, x.act a = x.begin uri) ∨ x.Stepped (x.act a) := by
  cases a with
  | begin uri => exact Or.inl ⟨uri, rfl⟩
  | check i => exact Or.inr (x.stepped_check i)
  | dialEnds i result => exact Or.inr (x.stepped_dialEnds i result)
  | enter i => exact Or.inr (stepped_enter h)
  | _ => cases hcall

/-- An act of a call that enters no link leaves the links and the readers alone. -/
theorem act_of_call (hcall : a.isCall = true) (h : x.insertion? a = none) :
    (x.act a).table = x.table ∧ (x.act a).readers = x.readers := by
  rcases stepped_act hcall h with ⟨uri, heq⟩ | heq | ⟨j, uri, s, s', -, -, -, heq⟩
  all_goals
    rw [heq]
    exact ⟨rfl, rfl⟩

/-! ## Ends of calls -/

/-- A call to a URL has come to its end with the link of a number. -/
def Linked (x : Exchange) (i : Nat) (uri : Url) (id : Nat) : Prop :=
  x.calls[i]? = some ⟨uri, .linked id⟩

theorem linked_setStage {j : Nat} {stage stage' : CallStage} {uri' : Url}
    (hj : x.calls[j]? = some ⟨uri', stage⟩) (hstage : ∀ id, stage ≠ .linked id) :
    (x.setStage j stage').Linked i uri id ↔
      x.Linked i uri id ∨ j = i ∧ uri' = uri ∧ stage' = .linked id := by
  show (x.calls.modify j fun c => { c with stage := stage' })[i]? = _ ↔ _
  rw [Linked, List.getElem?_modify]
  by_cases hji : j = i
  · subst hji
    simp only [hj, if_true, Option.map_eq_map, Option.map_some, Option.some.injEq, Call.mk.injEq,
      true_and]
    exact (or_iff_right fun h => hstage id h.2).symm
  · simp only [hji, if_false, Option.map_eq_map, Option.map_id', false_and, or_false]

theorem linked_begin {uri' : Url} : (x.begin uri').Linked i uri id ↔ x.Linked i uri id := by
  show (x.calls ++ [⟨uri', .checking⟩])[i]? = _ ↔ _
  rw [getElem?_concat_eq_some]
  exact or_iff_left (by rintro ⟨-, h⟩; cases h)

theorem calls_of_not_call (h : a.isCall = false) : (x.act a).calls = x.calls := by
  cases a with
  | remove j =>
    show (x.remove j).calls = x.calls
    unfold remove
    split <;> rfl
  | hangUp _ => rfl
  | closeAll => rfl
  | _ => cases h

/-- An act that enters no link brings no call to its end with a link. -/
theorem linked_act_iff (h : x.insertion? a = none) :
    (x.act a).Linked i uri id ↔ x.Linked i uri id := by
  by_cases hcall : a.isCall = true
  · rcases stepped_act hcall h with ⟨uri', heq⟩ | heq | ⟨j, uri', s, s', hj, hs, hs', heq⟩
    · rw [heq, linked_begin]
    · rw [heq]
    · rw [heq, linked_setStage hj hs]
      exact or_iff_left fun h => hs' id h.2.2
  · rw [Linked, calls_of_not_call (Bool.not_eq_true _ ▸ hcall)]
    rfl

/-- The act that enters a link brings its call to its end with that link. -/
theorem linked_act_of_insertion (h : x.insertion? a = some n) :
    (x.act a).Linked i uri id ↔
      x.Linked i uri id ∨ n.call = i ∧ uri.render = n.key ∧ n.link.id = id ∧
        ∃ c, x.calls[i]? = some ⟨uri, .entering c⟩ := by
  obtain ⟨uri', c, -, hcall, -, hn⟩ := insertion?_eq_some h
  rw [act_of_insertion h]
  refine (linked_setStage hcall nofun).trans (or_congr_right ?_)
  constructor
  · rintro ⟨rfl, rfl, hid⟩
    refine ⟨rfl, ?_, CallStage.linked.inj hid, c, hcall⟩
    rw [hn]
  · rintro ⟨rfl, -, rfl, c', hc'⟩
    rw [hcall] at hc'
    cases hc'
    exact ⟨rfl, rfl, rfl⟩

/-! ## Removals -/

theorem remove_of_removing {j connection : Nat} {key : String}
    (h : x.readers[j]? = some ⟨key, id, connection, .removing⟩) :
    x.act (.remove j) = ⟨x.table.removeIf key id, x.calls,
      x.readers.modify j fun r => { r with stage := .ended }⟩ := by
  rw [act, remove, h]

theorem remove_eq (x : Exchange) (j : Nat) :
    x.act (.remove j) = x ∨ ∃ key id connection,
      x.readers[j]? = some ⟨key, id, connection, .removing⟩ ∧
      x.act (.remove j) = ⟨x.table.removeIf key id, x.calls,
        x.readers.modify j fun r => { r with stage := .ended }⟩ := by
  by_cases hremoving : ∃ key id connection, x.readers[j]? = some ⟨key, id, connection, .removing⟩
  · obtain ⟨key, id, connection, h⟩ := hremoving
    exact Or.inr ⟨key, id, connection, h, remove_of_removing h⟩
  · left
    show x.remove j = x
    unfold remove
    split
    · next key id connection h => exact absurd ⟨key, id, connection, h⟩ hremoving
    · rfl

/-- An act that enters no link uses up no number, and may take links away only. -/
theorem table_act (h : x.insertion? a = none) :
    (x.act a).table.nextId = x.table.nextId ∧
      (x.act a).table.entries.Sublist x.table.entries := by
  by_cases hcall : a.isCall = true
  · rw [(act_of_call hcall h).1]
    exact ⟨rfl, List.Sublist.refl _⟩
  · cases a with
    | hangUp connection => exact ⟨rfl, List.Sublist.refl _⟩
    | remove j =>
      rcases x.remove_eq j with heq | ⟨key, id, connection, -, heq⟩
      · rw [heq]
        exact ⟨rfl, List.Sublist.refl _⟩
      · rw [heq]
        exact ⟨rfl, List.filter_sublist⟩
    | closeAll => exact ⟨rfl, List.nil_sublist _⟩
    | _ => exact absurd rfl hcall

end Exchange

end MeshNode.Links
