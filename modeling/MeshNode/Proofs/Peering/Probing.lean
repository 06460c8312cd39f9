import MeshNode.Peering.Probe

/-!
# What a round of probes finds

The probes of a round may end in any order. The result for an entry of the catalog
depends on nothing but the entry, the outcome of its own dial and the time that a
probe may take.

* **order does not count** — `inOrder_of_perm`, `probePeers_eq`;
* **what a result says** — `getElem?_probePeers`, `reachable_probeResult_iff`,
  `dialOf?_eq_some_iff`;
* **what is told** — `probeEvent?_eq_online_iff`, `finishedEvent_eq`: the same as what is found.
-/

namespace MeshNode.Peering

/-- Sorting by number undoes any shuffle of a numbered list. -/
theorem inOrder_of_perm {completed numbered : List (Nat × ProbeResult)}
    (hperm : completed.Perm numbered) (hnumbered : numbered.Pairwise fun a b => a.1 < b.1) :
    inOrder completed = numbered.map (·.2) := by
  have hsorted : (completed.mergeSort fun a b => decide (a.1 ≤ b.1)).Pairwise
      fun a b => decide (a.1 ≤ b.1) = true := by
    apply List.pairwise_mergeSort
    · intro a b c hab hbc
      exact decide_eq_true (Nat.le_trans (of_decide_eq_true hab) (of_decide_eq_true hbc))
    · intro a b
      simp only [Bool.or_eq_true, decide_eq_true_eq]
      exact Nat.le_total _ _
  have hall : (completed.mergeSort fun a b => decide (a.1 ≤ b.1)).Perm numbered :=
    (List.mergeSort_perm _ _).trans hperm
  have hdistinct : (completed.mergeSort fun a b => decide (a.1 ≤ b.1)).Pairwise
      fun a b => a.1 ≠ b.1 :=
    (hall.pairwise_iff fun h => h.symm).mpr (hnumbered.imp Nat.ne_of_lt)
  have hstrict : (completed.mergeSort fun a b => decide (a.1 ≤ b.1)).Pairwise
      fun a b => a.1 < b.1 :=
    (hsorted.and hdistinct).imp fun ⟨hle, hne⟩ => Nat.lt_of_le_of_ne (of_decide_eq_true hle) hne
  -- strictly ordered lists with the same elements are the same
  have hsame := hall.eq_of_pairwise (fun a b _ _ hab hba => absurd hba (Nat.lt_asymm hab))
    hstrict hnumbered
  rw [inOrder, hsame]

section Round

variable {proxy : Option Proxy} {timeout : Duration} {outcome : Nat → Dial → DialOutcome}
  {schedule : List (Nat × ProbeResult) → List (Nat × ProbeResult)} {candidates : List Url}

theorem pairwise_probeAll :
    (probeAll proxy timeout outcome candidates).Pairwise fun a b => a.1 < b.1 := by
  rw [probeAll, List.pairwise_map]
  apply List.pairwise_map.mp
  rw [List.zipIdx_map_snd]
  exact List.pairwise_lt_range'

/-- The results stand in the order of the candidates, whatever order the probes end in. -/
theorem probePeers_eq (hschedule : ∀ xs, (schedule xs).Perm xs) :
    probePeers proxy timeout outcome schedule candidates =
      (probeAll proxy timeout outcome candidates).map (·.2) :=
  inOrder_of_perm (hschedule _) pairwise_probeAll

theorem getElem?_probeAll (k : Nat) :
    ((probeAll proxy timeout outcome candidates).map (·.2))[k]? =
      candidates[k]?.map fun c => probeResult timeout c ((dialOf? proxy c).map (outcome k)) := by
  rw [probeAll, List.map_map, List.getElem?_map, List.getElem?_zipIdx, Option.map_map]
  simp only [Nat.zero_add]
  rfl

/-- The result at a place is that of the candidate there and of its own dial. -/
theorem getElem?_probePeers (hschedule : ∀ xs, (schedule xs).Perm xs) (k : Nat) :
    (probePeers proxy timeout outcome schedule candidates)[k]? =
      candidates[k]?.map fun c => probeResult timeout c ((dialOf? proxy c).map (outcome k)) := by
  rw [probePeers_eq hschedule, getElem?_probeAll]

end Round

theorem candidate_probeResult (timeout : Duration) (c : Url) (outcome : Option DialOutcome) :
    (probeResult timeout c outcome).candidate = c := by
  unfold probeResult
  split
  · split <;> rfl
  · rfl

/-- A candidate is reachable if it was dialled and the dial succeeded in time. -/
theorem reachable_probeResult_iff {timeout : Duration} {c : Url} {outcome : Option DialOutcome} :
    (probeResult timeout c outcome).reachable = true ↔
      ∃ after, outcome = some (.connected after) ∧ after ≤ timeout := by
  unfold probeResult
  split
  · next after =>
    split
    · next hle => exact iff_of_true rfl ⟨after, rfl, hle⟩
    · next hlt =>
      refine iff_of_false Bool.false_ne_true ?_
      rintro ⟨after', heq, hle⟩
      cases heq
      exact hlt hle
  · next hother =>
    exact iff_of_false Bool.false_ne_true fun ⟨after, heq, _⟩ => hother after heq

theorem isSupported_iff {c : Url} :
    Catalog.isSupported c = true ↔ c.scheme = "tcp" ∨ c.scheme = "tls" := by
  rw [Catalog.isSupported, Bool.or_eq_true, beq_iff_eq, beq_iff_eq]

/-- The connection to a target, straight away or through a proxy. -/
def dialTo (proxy : Option Proxy) (target : String) : Dial :=
  match proxy with
  | none => .direct target
  | some p => .through p.address target

/-- A candidate is dialled if it speaks one of the two schemes and names host and port. -/
theorem dialOf?_eq_some_iff {proxy : Option Proxy} {c : Url} {d : Dial} :
    dialOf? proxy c = some d ↔ Catalog.isSupported c = true ∧
      ∃ target, c.endpoint? = some target ∧ dialTo proxy target = d := by
  unfold dialOf? dialTo
  cases Catalog.isSupported c with
  | false => simp
  | true =>
    cases c.endpoint? with
    | none => simp
    | some target => cases proxy <;> simp

theorem exists_dial_iff {proxy : Option Proxy} {c : Url} :
    (∃ d, dialOf? proxy c = some d) ↔
      Catalog.isSupported c = true ∧ ∃ target, c.endpoint? = some target := by
  constructor
  · rintro ⟨d, hd⟩
    obtain ⟨hsupported, target, htarget, -⟩ := dialOf?_eq_some_iff.mp hd
    exact ⟨hsupported, target, htarget⟩
  · rintro ⟨hsupported, target, htarget⟩
    exact ⟨_, dialOf?_eq_some_iff.mpr ⟨hsupported, target, htarget, rfl⟩⟩

/-! ## What is told -/

/-- A peer is told to be online if that is what its probe finds, with the latency that it finds. -/
theorem probeEvent?_eq_online_iff {proxy : Option Proxy} {timeout : Duration} {c c' : Url}
    {outcome : Dial → DialOutcome} {cause : String} {after : Duration} :
    probeEvent? timeout c ((dialOf? proxy c).map outcome) cause = some (.online c' after) ↔
      probeResult timeout c ((dialOf? proxy c).map outcome) = ⟨c', true, after⟩ := by
  unfold probeEvent?
  cases hsupported : Catalog.isSupported c with
  | false =>
    have hdial : dialOf? proxy c = none := by
      rw [dialOf?, hsupported]
      rfl
    rw [hdial]
    exact iff_of_false nofun nofun
  | true =>
    simp only [Bool.not_true, Bool.false_eq_true, if_false]
    cases (dialOf? proxy c).map outcome with
    | none => exact iff_of_false nofun nofun
    | some o =>
      cases o with
      | connected t =>
        by_cases hle : t ≤ timeout
        · simp [probeResult, hle]
        · simp [probeResult, ProbeResult.unreachable, hle]
      | failed | silent => exact iff_of_false nofun nofun

/-- Whether a peer is told to be online. -/
def ProbeEvent.isOnline : ProbeEvent → Bool
  | .online _ _ => true
  | _ => false

theorem ProbeEvent.isOnline_iff {e : ProbeEvent} :
    e.isOnline = true ↔ ∃ c after, e = .online c after := by
  cases e <;> simp [isOnline]

theorem reachable_iff_told {proxy : Option Proxy} {timeout : Duration} {c : Url}
    {outcome : Dial → DialOutcome} {cause : String} :
    (probeResult timeout c ((dialOf? proxy c).map outcome)).reachable = true ↔
      ((probeEvent? timeout c ((dialOf? proxy c).map outcome) cause).map (·.isOnline)).getD false =
        true := by
  constructor
  · intro hreachable
    obtain ⟨r, hfound⟩ : ∃ r, probeResult timeout c ((dialOf? proxy c).map outcome) = r := ⟨_, rfl⟩
    obtain ⟨c', reachable, after⟩ := r
    rw [hfound] at hreachable
    cases hreachable
    rw [probeEvent?_eq_online_iff.mpr hfound]
    rfl
  · intro htold
    cases hevent : probeEvent? timeout c ((dialOf? proxy c).map outcome) cause with
    | none =>
      rw [hevent] at htold
      cases htold
    | some e =>
      rw [hevent] at htold
      obtain ⟨c', after, rfl⟩ := ProbeEvent.isOnline_iff.mp htold
      rw [probeEvent?_eq_online_iff.mp hevent]

/-- The end of a round tells how many candidates there were, and how many were told to be online. -/
theorem finishedEvent_eq {proxy : Option Proxy} {timeout : Duration}
    {outcome : Nat → Dial → DialOutcome} {cause : Nat → String}
    {schedule : List (Nat × ProbeResult) → List (Nat × ProbeResult)} {candidates : List Url}
    (hschedule : ∀ xs, (schedule xs).Perm xs) :
    finishedEvent (probePeers proxy timeout outcome schedule candidates) =
      .finished candidates.length
        ((probeEvents proxy timeout outcome cause candidates).countP (·.isOnline)) := by
  rw [finishedEvent, probePeers_eq hschedule, probeAll, probeEvents, List.map_map,
    List.length_map, List.length_zipIdx, List.countP_map, List.countP_filterMap]
  congr 1
  apply List.countP_congr
  rintro ⟨c, i⟩ -
  exact reachable_iff_told

end MeshNode.Peering
