import Mathlib.Data.List.Nodup
import MeshNode.Proofs.Records
import MeshNode.Proofs.Links.Acts

/-!
# Links and their readers

A call looks into the table before its dial and again when it enters its link, and a
reader may outlive the link it was begun for. In any order of their acts the table
neither loses a link nor brings one back.

* **the invariant** — `Exchange.Kept`: the numbers of the links, their readers and the
  calls that made them, over the list of all links entered so far; `Kept.act` is one
  act, `Kept.after` a history;
* **removals** — `Kept.lost`: a reader takes away the link it was begun for, and no other;
  `Kept.taken`: it does so once its connection has ended; `Kept.gone`: no link comes back;
* **the table over histories** — `Exchange.ledger_after`.
-/

namespace MeshNode.Links

/-- The reader as it was when it began. -/
def Reader.begun (r : Reader) : Reader := { r with stage := .reading }

/-- The links that a call has made. -/
def madeBy (L : List Insertion) (i : Nat) : List Insertion := L.filter fun n => n.call = i

namespace Exchange

variable {x : Exchange} {a : Act} {n : Insertion} {L : List Insertion}

/-- A link in the table with the reader that was begun for it and has not taken it away yet. -/
def OwnedBy (x : Exchange) (L : List Insertion) (e : String × Link) (j : Nat) : Prop :=
  ∃ n r, L[j]? = some n ∧ n.entry = e ∧ x.readers[j]? = some r ∧ r.stage ≠ .ended

/-- The exchange when certain links have been entered so far, the first one first. -/
structure Kept (x : Exchange) (L : List Insertion) : Prop where
  next : x.table.nextId = L.length + 1
  numbered : ∀ j n, L[j]? = some n → n.link.id = j + 1
  begun : x.readers.map Reader.begun = L.map Insertion.reader
  distinct : (x.table.entries.map (·.1)).Nodup
  owned : ∀ e ∈ x.table.entries, ∃ j, x.OwnedBy L e j
  linked : ∀ i uri id, x.Linked i uri id →
    ∃ n, madeBy L i = [n] ∧ n.key = uri.render ∧ n.link.id = id
  unlinked : ∀ i, (∀ uri id, ¬ x.Linked i uri id) → madeBy L i = []

theorem kept_empty : empty.Kept [] where
  next := rfl
  numbered := nofun
  begun := rfl
  distinct := List.nodup_nil
  owned := nofun
  linked := nofun
  unlinked _ _ := rfl

/-! ## One act -/

theorem Kept.length_readers (h : x.Kept L) : x.readers.length = L.length := by
  have hlen := congrArg List.length h.begun
  rwa [List.length_map, List.length_map] at hlen

theorem madeBy_concat_self : madeBy (L ++ [n]) n.call = madeBy L n.call ++ [n] := by
  rw [madeBy, List.filter_append, List.filter_cons_of_pos (by simp)]
  rfl

theorem madeBy_concat_of_ne {i : Nat} (h : n.call ≠ i) : madeBy (L ++ [n]) i = madeBy L i := by
  rw [madeBy, List.filter_append, List.filter_cons_of_neg (by simpa using h), List.filter_nil,
    List.append_nil]
  rfl

theorem Kept.numbered_insertion (h : x.Kept L) (hid : n.link.id = x.table.nextId) {j : Nat}
    {m : Insertion} (hm : (L ++ [n])[j]? = some m) : m.link.id = j + 1 := by
  rcases getElem?_concat_eq_some.mp hm with hold | ⟨rfl, rfl⟩
  · exact h.numbered j m hold
  · rw [hid, h.next]

theorem Kept.owned_insertion (h : x.Kept L) (hn : x.insertion? a = some n) {e : String × Link}
    (he : e ∈ (x.act a).table.entries) : ∃ j, (x.act a).OwnedBy (L ++ [n]) e j := by
  rw [act_of_insertion hn] at he ⊢
  rcases List.mem_append.mp he with he | he
  · obtain ⟨j, m, r, hm, hme, hr, hstage⟩ := h.owned e he
    exact ⟨j, m, r, getElem?_concat_eq_some.mpr (Or.inl hm), hme,
      getElem?_concat_eq_some.mpr (Or.inl hr), hstage⟩
  · refine ⟨L.length, n, n.reader, List.getElem?_concat_length, (List.mem_singleton.mp he).symm,
      ?_, nofun⟩
    rw [← h.length_readers]
    exact List.getElem?_concat_length

/-- The call that enters a link had none before. -/
theorem Kept.madeBy_call (h : x.Kept L) (hn : x.insertion? a = some n) :
    madeBy L n.call = [] ∧ ∀ uri id, ¬ x.Linked n.call uri id := by
  obtain ⟨uri, c, -, hcall, -, -⟩ := insertion?_eq_some hn
  have hentering : ∀ uri' id, ¬ x.Linked n.call uri' id := by
    intro uri' id hlinked
    rw [Linked, hcall] at hlinked
    cases hlinked
  exact ⟨h.unlinked _ hentering, hentering⟩

theorem Kept.linked_insertion (h : x.Kept L) (hn : x.insertion? a = some n) {i id : Nat} {uri : Url}
    (hlinked : (x.act a).Linked i uri id) :
    ∃ m, madeBy (L ++ [n]) i = [m] ∧ m.key = uri.render ∧ m.link.id = id := by
  obtain ⟨hnone, hentering⟩ := h.madeBy_call hn
  rcases (linked_act_of_insertion hn).mp hlinked with hold | ⟨rfl, hkey, hid, -⟩
  · rw [madeBy_concat_of_ne]
    · exact h.linked i uri id hold
    · rintro rfl
      exact hentering uri id hold
  · rw [madeBy_concat_self, hnone]
    exact ⟨n, rfl, hkey.symm, hid⟩

theorem Kept.unlinked_insertion (h : x.Kept L) (hn : x.insertion? a = some n) {i : Nat}
    (hi : ∀ uri id, ¬ (x.act a).Linked i uri id) : madeBy (L ++ [n]) i = [] := by
  obtain ⟨uri, c, -, hcall, -, heq⟩ := insertion?_eq_some hn
  have hkey : uri.render = n.key := by rw [heq]
  rw [madeBy_concat_of_ne]
  · refine h.unlinked i fun uri' id hold => hi uri' id ?_
    exact (linked_act_of_insertion hn).mpr (Or.inl hold)
  · rintro rfl
    refine hi uri n.link.id ?_
    exact (linked_act_of_insertion hn).mpr (Or.inr ⟨rfl, hkey, rfl, c, hcall⟩)

/-- A link is entered. -/
theorem Kept.insertion (h : x.Kept L) (hn : x.insertion? a = some n) :
    (x.act a).Kept (L ++ [n]) := by
  obtain ⟨uri, c, -, -, hfree, heq⟩ := insertion?_eq_some hn
  have hkey : n.key = uri.render := by rw [heq]
  have hid : n.link.id = x.table.nextId := by rw [heq]
  have hact := act_of_insertion hn
  refine ⟨?_, fun _ _ => h.numbered_insertion hid, ?_, ?_, fun _ => h.owned_insertion hn,
    fun _ _ _ => h.linked_insertion hn, fun _ => h.unlinked_insertion hn⟩
  · rw [hact, List.length_append]
    exact congrArg (· + 1) h.next
  · rw [hact, List.map_append, List.map_append, ← h.begun]
    rfl
  · rw [hact]
    show ((x.table.entries ++ [n.entry]).map (·.1)).Nodup
    rw [List.map_append, List.map_singleton, ← List.concat_eq_append]
    refine List.Nodup.concat ?_ h.distinct
    show n.key ∉ _
    rw [hkey]
    exact LinkTable.contains_eq_false_iff.mp hfree

/-- No link is entered, and a link that stays keeps its reader. -/
theorem Kept.frame (h : x.Kept L) (hn : x.insertion? a = none)
    (hbegun : (x.act a).readers.map Reader.begun = x.readers.map Reader.begun)
    (howned : ∀ e ∈ (x.act a).table.entries, ∀ j, x.OwnedBy L e j → (x.act a).OwnedBy L e j) :
    (x.act a).Kept L where
  next := (table_act hn).1.trans h.next
  numbered := h.numbered
  begun := hbegun.trans h.begun
  distinct := h.distinct.sublist ((table_act hn).2.map _)
  owned e he :=
    have ⟨j, hj⟩ := h.owned e ((table_act hn).2.subset he)
    ⟨j, howned e he j hj⟩
  linked i uri id hlinked := h.linked i uri id ((linked_act_iff hn).mp hlinked)
  unlinked i hi := h.unlinked i fun uri id hlinked => hi uri id ((linked_act_iff hn).mpr hlinked)

/-- A reader knows the key and the number of the link it was begun for. -/
theorem Kept.reader_eq (h : x.Kept L) {j : Nat} {r : Reader} (hr : x.readers[j]? = some r) :
    ∃ n, L[j]? = some n ∧ r.key = n.key ∧ r.id = n.link.id ∧ r.connection = n.connection := by
  have hj : (x.readers.map Reader.begun)[j]? = some r.begun := by
    rw [List.getElem?_map, hr]
    rfl
  rw [h.begun, List.getElem?_map, Option.map_eq_some_iff] at hj
  obtain ⟨n, hn, hnr⟩ := hj
  exact ⟨n, hn, (congrArg Reader.key hnr).symm, (congrArg Reader.id hnr).symm,
    (congrArg Reader.connection hnr).symm⟩

/-- Links with the same number are the same. -/
theorem Kept.index_eq (h : x.Kept L) {j k : Nat} {m : Insertion} (hj : L[j]? = some n)
    (hk : L[k]? = some m) (hid : n.link.id = m.link.id) : j = k := by
  have hnj := h.numbered j n hj
  have hmk := h.numbered k m hk
  omega

theorem Kept.remove (h : x.Kept L) (j : Nat) : (x.act (.remove j)).Kept L := by
  rcases x.remove_eq j with heq | ⟨key, id, connection, hr, heq⟩
  · rw [heq]
    exact h
  · refine h.frame rfl ?_ ?_
    · rw [heq]
      refine map_modify_eq (fun r => ?_) x.readers j
      rfl
    · rintro e he k ⟨m, r, hm, rfl, hk, hstage⟩
      rw [heq] at he ⊢
      refine ⟨m, r, hm, rfl, ?_, hstage⟩
      -- the link that the reader has taken away is its own, so the one that stays has another
      have hne : j ≠ k := by
        rintro rfl
        rw [hr] at hk
        cases hk
        obtain ⟨m', hm', hkey, hid, -⟩ := h.reader_eq hr
        rw [hm] at hm'
        cases hm'
        exact (LinkTable.mem_entries_removeIf.mp he).2 ⟨hkey.symm, hid.symm⟩
      show (x.readers.modify j _)[k]? = some r
      rw [List.getElem?_modify_ne _ _ hne, hk]

theorem Kept.hangUp (h : x.Kept L) (connection : Nat) : (x.act (.hangUp connection)).Kept L := by
  refine h.frame rfl ?_ ?_
  · refine map_map_eq (fun r => ?_) x.readers
    split <;> rfl
  · rintro e - j ⟨m, r, hm, hme, hr, hstage⟩
    refine ⟨m, if r.connection = connection ∧ r.stage = .reading then { r with stage := .removing }
      else r, hm, hme, ?_, ?_⟩
    · show (x.readers.map _)[j]? = _
      rw [List.getElem?_map, hr]
      rfl
    · split
      · exact nofun
      · exact hstage

theorem Kept.closeAll (h : x.Kept L) : (x.act .closeAll).Kept L := by
  refine h.frame rfl ?_ nofun
  refine map_map_eq (fun r => ?_) x.readers
  split <;> rfl

theorem Kept.act (h : x.Kept L) (a : Act) :
    (x.act a).Kept (L ++ (x.insertion? a).toList) := by
  cases hn : x.insertion? a with
  | some n => exact h.insertion hn
  | none =>
    rw [Option.toList_none, List.append_nil]
    by_cases hcall : a.isCall = true
    · have hreaders := (act_of_call hcall hn).2
      refine h.frame hn (by rw [hreaders]) ?_
      rintro e - j ⟨m, r, hm, hme, hr, hstage⟩
      exact ⟨m, r, hm, hme, hreaders ▸ hr, hstage⟩
    · cases a with
      | hangUp connection => exact h.hangUp connection
      | remove j => exact h.remove j
      | closeAll => exact h.closeAll
      | _ => exact absurd rfl hcall

theorem Kept.after (h : x.Kept L) (as : List Act) :
    (x.after as).Kept (L ++ x.insertions as) := by
  induction as generalizing x L with
  | nil => rwa [insertions, List.append_nil]
  | cons a as ih =>
    rw [insertions, ← List.append_assoc]
    exact ih (h.act a)

/-! ## Removals -/

/-- A link goes by the act that closes all links, or by its own reader. -/
theorem Kept.lost (h : x.Kept L) {e : String × Link} (he : e ∈ x.table.entries)
    (hgone : e ∉ (x.act a).table.entries) :
    a = .closeAll ∨ ∃ j, a = .remove j ∧ x.OwnedBy L e j := by
  by_cases hcall : a.isCall = true
  · refine absurd ?_ hgone
    cases hn : x.insertion? a with
    | some n =>
      rw [act_of_insertion hn]
      exact List.mem_append_left _ he
    | none => rwa [(act_of_call hcall hn).1]
  · cases a with
    | hangUp connection => exact absurd he hgone
    | closeAll => exact Or.inl rfl
    | remove j =>
      refine Or.inr ⟨j, rfl, ?_⟩
      rcases x.remove_eq j with heq | ⟨key, id, connection, hr, heq⟩
      · rw [heq] at hgone
        exact absurd he hgone
      · rw [heq] at hgone
        obtain ⟨rfl, rfl⟩ : e.1 = key ∧ e.2.id = id := by
          by_contra hother
          exact hgone (LinkTable.mem_entries_removeIf.mpr ⟨he, hother⟩)
        -- the number that the reader removes by is that of one link only
        obtain ⟨k, hk⟩ := h.owned e he
        obtain ⟨m, r, hm, rfl, -, -⟩ := id hk
        obtain ⟨n, hn, -, hid, -⟩ := h.reader_eq hr
        rwa [h.index_eq hn hm hid.symm]
    | _ => exact absurd rfl hcall

theorem hangUp_of_reading {j : Nat} {r : Reader} (hr : x.readers[j]? = some r)
    (hreading : r.stage = .reading) :
    (x.act (.hangUp r.connection)).readers[j]? = some { r with stage := .removing } := by
  show (x.readers.map _)[j]? = _
  rw [List.getElem?_map, hr, Option.map_some, if_pos ⟨rfl, hreading⟩]

/-- A reader that is about to take its link away takes away the one it was begun for. -/
theorem Kept.taken (h : x.Kept L) {j : Nat} {r : Reader} (hn : L[j]? = some n)
    (hr : x.readers[j]? = some r) (hremoving : r.stage = .removing) :
    n.entry ∉ (x.act (.remove j)).table.entries ∧
      (x.act (.remove j)).readers[j]? = some { r with stage := .ended } := by
  obtain ⟨key, id, connection, stage⟩ := r
  obtain rfl : stage = .removing := hremoving
  obtain ⟨m, hm, hkey, hid, -⟩ := h.reader_eq hr
  obtain rfl : m = n := Option.some.inj (hm.symm.trans hn)
  rw [remove_of_removing hr]
  refine ⟨fun hmem => (LinkTable.mem_entries_removeIf.mp hmem).2 ⟨hkey.symm, hid.symm⟩, ?_⟩
  show (x.readers.modify j _)[j]? = _
  rw [List.getElem?_modify_eq, hr]
  rfl

/-- A link that has gone does not come back. -/
theorem Kept.gone (h : x.Kept L) (hn : n ∈ L) (hgone : n.entry ∉ x.table.entries)
    (bs : List Act) : n.entry ∉ (x.after bs).table.entries := by
  induction bs generalizing x L with
  | nil => exact hgone
  | cons a bs ih =>
    refine ih (h.act a) (List.mem_append_left _ hn) fun he => ?_
    cases hm : x.insertion? a with
    | none => exact hgone ((table_act hm).2.subset he)
    | some m =>
      rw [act_of_insertion hm] at he
      rcases List.mem_append.mp he with he | he
      · exact hgone he
      · -- a link that is entered has a number that no link before it had
        obtain ⟨j, hj⟩ := List.mem_iff_getElem?.mp hn
        have hlt := (List.getElem?_eq_some_iff.mp hj).1
        have hid : n.link.id = m.link.id :=
          congrArg (fun e => e.2.id) (List.mem_singleton.mp he)
        have hlast := (h.insertion hm).index_eq (getElem?_concat_eq_some.mpr (Or.inl hj))
          List.getElem?_concat_length hid
        exact absurd hlast (Nat.ne_of_lt hlt)

/-! ## The table over histories -/

theorem Kept.nodup_ids (h : x.Kept L) : (L.map (·.link.id)).Nodup := by
  have hrange : L.map (·.link.id) = List.range' 1 L.length := by
    refine List.ext_getElem (by simp) fun j hj _ => ?_
    have hj' : j < L.length := by rwa [List.length_map] at hj
    rw [List.getElem_map, List.getElem_range', h.numbered j _ (List.getElem?_eq_getElem hj')]
    omega
  rw [hrange]
  exact List.nodup_range'

theorem linked_of_result? {i id : Nat} (h : x.result? i = some (.ok id)) :
    ∃ uri, x.Linked i uri id := by
  unfold result? at h
  split at h
  · next uri id' hcall =>
    cases h
    exact ⟨uri, hcall⟩
  · cases h
  · cases h

theorem not_linked_of_result? {i : Nat} {cause : CallError}
    (h : x.result? i = some (.error cause)) (uri : Url) (id : Nat) : ¬ x.Linked i uri id := by
  intro hlinked
  rw [result?, hlinked] at h
  cases h

theorem result?_setStage_failed {i : Nat} {c : Call} {cause : CallError}
    (h : x.calls[i]? = some c) :
    (x.setStage i (.failed cause)).result? i = some (.error cause) := by
  have hi : (x.setStage i (.failed cause)).calls[i]? = some ⟨c.uri, .failed cause⟩ := by
    show (x.calls.modify i _)[i]? = _
    rw [List.getElem?_modify_eq, h]
    rfl
  rw [result?, hi]

theorem length_insertions_le (x : Exchange) (as : List Act) :
    (x.insertions as).length ≤ as.length := by
  induction as generalizing x with
  | nil => exact Nat.le_refl _
  | cons a as ih =>
    have hrest := ih (x.act a)
    have hone : (x.insertion? a).toList.length ≤ 1 := Option.length_toList_le
    rw [insertions, List.length_append, List.length_cons]
    omega

/-- The numbers of links are no more than the acts so far. -/
theorem nextId_after_le (as : List Act) : (empty.after as).table.nextId ≤ as.length + 1 := by
  have hkept : (empty.after as).Kept (empty.insertions as) := kept_empty.after as
  rw [hkept.next]
  exact Nat.succ_le_succ (length_insertions_le empty as)

/-- The table, the readers and the results of the calls, when certain links have been entered. -/
structure Ledger (x : Exchange) (made : List Insertion) : Prop where
  /-- No two links have the same number, and each has a reader that was begun for it. -/
  numbers : (made.map (·.link.id)).Nodup
  begun : x.readers.map Reader.begun = made.map Insertion.reader
  keys : (x.table.entries.map (·.1)).Nodup
  owned : ∀ e ∈ x.table.entries, ∃ j, x.OwnedBy made e j
  /-- A call that returns has entered one link, and a call that returns an error none. -/
  returned : ∀ i id, x.result? i = some (.ok id) → ∃ c n, x.calls[i]? = some c ∧
    madeBy made i = [n] ∧ n.key = c.key ∧ n.link.id = id
  failed : ∀ i cause, x.result? i = some (.error cause) → madeBy made i = []
  /-- An act of a call leaves all other links and readers alone. -/
  called : ∀ a : Act, a.isCall = true →
    (x.act a).table.entries =
        x.table.entries ++ (x.insertion? a).toList.map Insertion.entry ∧
      (x.act a).readers = x.readers ++ (x.insertion? a).toList.map Insertion.reader
  /-- A link stays until all links are closed or its own reader takes it away, -/
  lost : ∀ e ∈ x.table.entries, ∀ a, e ∉ (x.act a).table.entries →
    a = .closeAll ∨ ∃ j, a = .remove j ∧ x.OwnedBy made e j
  /-- which it does when its connection has ended; -/
  hungUp : ∀ (j : Nat) (r : Reader), x.readers[j]? = some r → r.stage = .reading →
    (x.act (.hangUp r.connection)).readers[j]? = some { r with stage := .removing }
  taken : ∀ (j : Nat) n (r : Reader), made[j]? = some n → x.readers[j]? = some r → r.stage = .removing →
    n.entry ∉ (x.act (.remove j)).table.entries ∧
      (x.act (.remove j)).readers[j]? = some { r with stage := .ended }
  /-- no call can enter another one under its key as long as it stays, -/
  refused : ∀ e ∈ x.table.entries, ∀ i uri c, x.calls[i]? = some ⟨uri, .entering c⟩ →
    uri.render = e.1 →
      (x.act (.enter i)).result? i = some (.error (.alreadyConnected e.1))
  /-- and it does not come back after it has gone. -/
  gone : ∀ n ∈ made, n.entry ∉ x.table.entries → ∀ bs, n.entry ∉ (x.after bs).table.entries

/-- In any order of the acts of calls and readers, no link gets lost or comes back. -/
theorem ledger_after (as : List Act) : (empty.after as).Ledger (empty.insertions as) := by
  have h : (empty.after as).Kept (empty.insertions as) := kept_empty.after as
  refine ⟨h.nodup_ids, h.begun, h.distinct, h.owned, ?_, ?_, ?_, fun e he a => h.lost he,
    fun j r => hangUp_of_reading, fun j n r => h.taken, ?_, fun n hn => h.gone hn⟩
  · intro i id hresult
    obtain ⟨uri, hlinked⟩ := linked_of_result? hresult
    obtain ⟨n, hn, hkey, hid⟩ := h.linked i uri id hlinked
    exact ⟨_, n, hlinked, hn, hkey, hid⟩
  · intro i cause hresult
    exact h.unlinked i (not_linked_of_result? hresult)
  · intro a hcall
    cases hn : (empty.after as).insertion? a with
    | some n =>
      rw [act_of_insertion hn]
      exact ⟨rfl, rfl⟩
    | none =>
      obtain ⟨htable, hreaders⟩ := act_of_call hcall hn
      rw [htable, hreaders]
      exact ⟨(List.append_nil _).symm, (List.append_nil _).symm⟩
  · intro e he i uri c hcall hkey
    have hfull := LinkTable.contains_of_mem he
    rw [← hkey] at hfull ⊢
    rw [enter_of_contains hcall hfull]
    exact result?_setStage_failed hcall

/-- A peer on this machine. -/
def neighbour : Url :=
  ⟨"tcp", some ⟨"", "", some (.name "localhost"), some 4000⟩, .plain "", none, none⟩

/-- A connection to the peer. -/
def hop (number : Nat) : Connection := ⟨number, some (.v4 (Octets.padded 4 [127, 0, 0, 1]) 4000)⟩

/-- All links are closed and the peer is called again before the reader of its first link, which
has seen the end of its connection, comes to take that link away. -/
def redialled : List Act :=
  [.begin neighbour, .check 0, .dialEnds 0 (.ok (hop 0)), .enter 0, .hangUp 0, .closeAll,
    .begin neighbour, .check 1, .dialEnds 1 (.ok (hop 1)), .enter 1, .remove 0]

/-- The second link stays, with its own reader. -/
theorem later_link_stays :
    (empty.after redialled).Ledger (empty.insertions redialled) ∧
      (empty.after redialled).table.entries =
        [(neighbour.render, ⟨2, remoteText neighbour.render (hop 1)⟩)] ∧
      (empty.after redialled).readers.map (·.stage) = [.ended, .reading] := by
  refine ⟨ledger_after redialled, ?_, ?_⟩
  all_goals
    simp [redialled, after, act, begin, check, dialEnds, enter, hangUp, closeAll, remove, setStage,
      LinkTable.contains, LinkTable.find?, LinkTable.insert?, LinkTable.removeIf, LinkTable.clear,
      LinkTable.empty, empty, hop]

end Exchange

end MeshNode.Links
