import MeshNode.Proofs.Peering.Probing
import MeshNode.Proofs.Peering.Ranking

/-!
# The order in which probes end

The probes of a round run side by side. A loop takes their results as they end, and only the
numbers they carry say which candidate each belongs to.

* **orders** — `Gathers` is the loop, turn by turn; `gathers_iff_perm`: it can come upon the
  results in every order, and neither loses nor repeats any;
* **candidates** — `reachable_iff`, `latency_of_not_reachable`: what one result says;
* **results** — `probePeers_of_gathers`, and with it `probes_end_in_any_order`.
-/

namespace MeshNode.Peering

/-! ## Orders -/

/-- The loop over the probes that have begun: each turn takes the result of one that has ended,
whichever it is, until none is left. The second list holds the results in the order of the turns. -/
inductive Gathers : List (Nat × ProbeResult) → List (Nat × ProbeResult) → Prop
  | done : Gathers [] []
  | turn {before after taken : List (Nat × ProbeResult)} (x : Nat × ProbeResult) :
      Gathers (before ++ after) taken → Gathers (before ++ x :: after) (x :: taken)

theorem Gathers.perm {begun taken : List (Nat × ProbeResult)} (h : Gathers begun taken) :
    taken.Perm begun := by
  induction h with
  | done => exact .refl []
  | turn x _ ih => exact (ih.cons x).trans List.perm_middle.symm

/-- Any order is possible. -/
theorem gathers_iff_perm {begun taken : List (Nat × ProbeResult)} :
    Gathers begun taken ↔ taken.Perm begun := by
  refine ⟨Gathers.perm, fun h => ?_⟩
  induction taken generalizing begun with
  | nil =>
    obtain rfl := h.nil_eq
    exact .done
  | cons x taken ih =>
    obtain ⟨before, after, rfl⟩ := List.append_of_mem (h.subset List.mem_cons_self)
    exact .turn x (ih (h.trans List.perm_middle).cons_inv)

/-! ## Candidates -/

/-- The result for a candidate, in terms of its URL and its dial. -/
theorem reachable_iff {proxy : Option Proxy} {timeout : Duration} {c : Url}
    {outcome : Dial → DialOutcome} :
    (probeResult timeout c ((dialOf? proxy c).map outcome)).reachable = true ↔
      (c.scheme = "tcp" ∨ c.scheme = "tls") ∧ ∃ target after, c.endpoint? = some target ∧
        outcome (dialTo proxy target) = .connected after ∧ after ≤ timeout := by
  rw [reachable_probeResult_iff, ← isSupported_iff]
  constructor
  · rintro ⟨after, houtcome, hle⟩
    obtain ⟨d, hd, hconnected⟩ := Option.map_eq_some_iff.mp houtcome
    obtain ⟨hsupported, target, htarget, rfl⟩ := dialOf?_eq_some_iff.mp hd
    exact ⟨hsupported, target, after, htarget, hconnected, hle⟩
  · rintro ⟨hsupported, target, after, htarget, hconnected, hle⟩
    have hd : dialOf? proxy c = some (dialTo proxy target) :=
      dialOf?_eq_some_iff.mpr ⟨hsupported, target, htarget, rfl⟩
    exact ⟨after, by rw [hd, Option.map_some, hconnected], hle⟩

theorem latency_of_not_reachable {timeout : Duration} {c : Url} {outcome : Option DialOutcome}
    (h : (probeResult timeout c outcome).reachable = false) :
    (probeResult timeout c outcome).latency = .zero := by
  unfold probeResult at h ⊢
  split
  · next after =>
    split
    · next hle => simp only [if_pos hle, Bool.true_eq_false] at h
    · rfl
  · rfl

/-! ## Results -/

theorem probePeers_of_gathers {proxy : Option Proxy} {timeout : Duration}
    {outcome : Nat → Dial → DialOutcome} {candidates : List Url}
    {schedule : List (Nat × ProbeResult) → List (Nat × ProbeResult)}
    (h : Gathers (probeAll proxy timeout outcome candidates)
      (schedule (probeAll proxy timeout outcome candidates))) :
    probePeers proxy timeout outcome schedule candidates =
      (probeAll proxy timeout outcome candidates).map (·.2) :=
  inOrder_of_perm h.perm pairwise_probeAll

/-- **The order in which probes end does not count.** For all candidates, outcomes of their dials
and orders in which the loop can take the results: there is one result for each candidate, at its
place; the candidate is reachable exactly if it speaks one of the two schemes, names host and port,
and its dial succeeded in time; one that is not has no latency; and the closest peers are the same
for every other order. -/
theorem probes_end_in_any_order (proxy : Option Proxy) (timeout : Duration)
    (outcome : Nat → Dial → DialOutcome) (candidates : List Url)
    (schedule : List (Nat × ProbeResult) → List (Nat × ProbeResult))
    (h : Gathers (probeAll proxy timeout outcome candidates)
      (schedule (probeAll proxy timeout outcome candidates))) :
    let results := probePeers proxy timeout outcome schedule candidates
    results.length = candidates.length ∧
    (∀ i c, candidates[i]? = some c → ∃ r, results[i]? = some r ∧ r.candidate = c ∧
      (r.reachable = true ↔ (c.scheme = "tcp" ∨ c.scheme = "tls") ∧
        ∃ target after, c.endpoint? = some target ∧
          outcome i (dialTo proxy target) = .connected after ∧ after ≤ timeout) ∧
      (r.reachable = false → r.latency = .zero)) ∧
    ∀ other, Gathers (probeAll proxy timeout outcome candidates)
        (other (probeAll proxy timeout outcome candidates)) →
      ∀ n, rankReachable (probePeers proxy timeout outcome other candidates) n =
        rankReachable results n := by
  intro results
  have hresults : results = (probeAll proxy timeout outcome candidates).map (·.2) :=
    probePeers_of_gathers h
  refine ⟨?_, ?_, ?_⟩
  · rw [hresults, List.length_map, probeAll, List.length_map, List.length_zipIdx]
  · intro i c hc
    refine ⟨_, ?_, candidate_probeResult timeout c _, reachable_iff, latency_of_not_reachable⟩
    rw [hresults, getElem?_probeAll, hc]
    rfl
  · intro other hother n
    rw [probePeers_of_gathers hother, hresults]

/-- A round over a peer that is named twice and one that cannot be dialled. The second dial is the
faster one, and the results are taken from the last to the first. -/
theorem last_probe_ends_first :
    let candidates := [peerNamed "a", { peerNamed "a" with scheme := "quic" }, peerNamed "a"]
    let outcome : Nat → Dial → DialOutcome := fun i _ => .connected (.ofMillis (9 - i))
    let all := probeAll none (.ofSecs 3) outcome candidates
    Gathers all all.reverse ∧ Gathers all all ∧
      (probePeers none (.ofSecs 3) outcome List.reverse candidates).length = 3 ∧
      rankReachable (probePeers none (.ofSecs 3) outcome id candidates) 2 =
        rankReachable (probePeers none (.ofSecs 3) outcome List.reverse candidates) 2 := by
  intro candidates outcome all
  have hreverse : Gathers all all.reverse := gathers_iff_perm.mpr (List.reverse_perm all)
  have hsame : Gathers all all := gathers_iff_perm.mpr (.refl all)
  have hround := probes_end_in_any_order none (.ofSecs 3) outcome candidates List.reverse hreverse
  exact ⟨hreverse, hsame, hround.1, hround.2.2 id hsame 2⟩

end MeshNode.Peering
