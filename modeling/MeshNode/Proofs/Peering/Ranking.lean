import MeshNode.Peering.Ranking

/-!
# The order of reachable peers

A reachable result is ranked before another if it is faster, or as fast and earlier
in the catalog. The list of the closest peers holds the reachable results in just
this order: at its place `p` stands the one that `p` others are ranked before.

* **counting in a strict order** — `countP_of_pairwise`;
* **the sort is stable** — `filter_ranked`, and with it `pairwise_ranked`;
* **places** — `getElem?_rankReachable`, `mem_rankReachable`;
* **the ranking** — `IsRanking` says what a ranking is without sorting anything. There is one
  (`isRanking_ranked`) and no other (`IsRanking.eq_ranked`), the closest peers are its front, and
  results that are not reachable have no part in it (`Diluted.rankReachable_eq`).
-/

namespace MeshNode.Peering

/-! ## Places in a strict order -/

/-- In a strictly ordered list as many elements are less than one as stand before it. -/
theorem countP_of_pairwise {α : Type} {r : α → α → Prop} [DecidableRel r]
    (hasymm : ∀ a b, r a b → ¬ r b a) {as : List α} (h : as.Pairwise r) {p : Nat} {a : α}
    (ha : as[p]? = some a) : as.countP (fun b => decide (r b a)) = p := by
  obtain ⟨hp, hget⟩ := List.getElem?_eq_some_iff.mp ha
  have hcut : as = as.take p ++ a :: as.drop (p + 1) := by
    rw [← hget, ← List.drop_eq_getElem_cons hp, List.take_append_drop]
  have hparts := h
  rw [hcut, List.pairwise_append, List.pairwise_cons] at hparts
  obtain ⟨-, ⟨hafter, -⟩, hbefore⟩ := hparts
  have htake : (as.take p).countP (fun b => decide (r b a)) = p := by
    rw [List.countP_eq_length.mpr, List.length_take_of_le (Nat.le_of_lt hp)]
    intro b hb
    exact decide_eq_true (hbefore b hb a List.mem_cons_self)
  have hdrop : (a :: as.drop (p + 1)).countP (fun b => decide (r b a)) = 0 := by
    rw [List.countP_eq_zero]
    intro b hb
    rw [decide_eq_true_eq]
    rcases List.mem_cons.mp hb with rfl | hb
    · exact fun hbb => hasymm b b hbb hbb
    · exact hasymm a b (hafter b hb)
  calc as.countP (fun b => decide (r b a))
      = (as.take p ++ a :: as.drop (p + 1)).countP (fun b => decide (r b a)) := by rw [← hcut]
    _ = p := by rw [List.countP_append, htake, hdrop, Nat.add_zero]

/-! ## Results with their places in the catalog -/

/-- Whether a result with its place in the catalog is ranked before another. -/
def Outranks (a b : ProbeResult × Nat) : Prop :=
  a.1.latency < b.1.latency ∨ (a.1.latency = b.1.latency ∧ a.2 < b.2)

instance (a b : ProbeResult × Nat) : Decidable (Outranks a b) := inferInstanceAs (Decidable (_ ∨ _))

/-- How many reachable results are ranked before one. -/
def ahead (results : List ProbeResult) (x : ProbeResult × Nat) : Nat :=
  results.zipIdx.countP fun a => a.1.reachable && decide (Outranks a x)

/-- The reachable results with their places, in the order of the catalog. -/
def answered (results : List ProbeResult) : List (ProbeResult × Nat) :=
  results.zipIdx.filter (·.1.reachable)

/-- The reachable results with their places, the fastest first. -/
def ranked (results : List ProbeResult) : List (ProbeResult × Nat) :=
  (answered results).mergeSort fun a b => decide (a.1.latency ≤ b.1.latency)

theorem Outranks.asymm (a b : ProbeResult × Nat) (h : Outranks a b) : ¬ Outranks b a := by
  have hirrefl : ∀ d : Duration, ¬ d < d := fun d => Nat.lt_irrefl d.nanos
  have hasymm : ∀ d e : Duration, d < e → ¬ e < d := fun d e => Nat.lt_asymm (a := d.nanos)
  rintro (hlt | ⟨heq, hlt⟩)
  · rcases h with h | ⟨h, -⟩
    · exact hasymm _ _ h hlt
    · exact hirrefl _ (h ▸ hlt)
  · rcases h with h | ⟨-, h⟩
    · exact hirrefl _ (heq ▸ h)
    · exact Nat.lt_asymm h hlt

theorem mem_answered {results : List ProbeResult} {x : ProbeResult × Nat} :
    x ∈ answered results ↔ results[x.2]? = some x.1 ∧ x.1.reachable = true := by
  rw [answered, List.mem_filter, List.mem_zipIdx_iff_getElem?]

theorem map_answered (results : List ProbeResult) :
    (answered results).map (·.1) = results.filter (·.reachable) := by
  have hfilter := List.filter_map (f := Prod.fst) (p := ProbeResult.reachable)
    (l := results.zipIdx)
  rw [List.zipIdx_map_fst] at hfilter
  exact hfilter.symm

theorem pairwise_answered (results : List ProbeResult) :
    (answered results).Pairwise fun a b => a.2 < b.2 := by
  have hplaces : results.zipIdx.Pairwise fun a b => a.2 < b.2 := by
    apply List.pairwise_map.mp
    rw [List.zipIdx_map_snd]
    exact List.pairwise_lt_range'
  exact hplaces.filter _

theorem ranked_perm (results : List ProbeResult) : (ranked results).Perm (answered results) :=
  List.mergeSort_perm _ _

/-! ## The sort is stable -/

theorem latency_le_trans (a b c : ProbeResult × Nat)
    (hab : decide (a.1.latency ≤ b.1.latency) = true)
    (hbc : decide (b.1.latency ≤ c.1.latency) = true) :
    decide (a.1.latency ≤ c.1.latency) = true :=
  decide_eq_true (Nat.le_trans (of_decide_eq_true hab) (of_decide_eq_true hbc))

theorem latency_le_total (a b : ProbeResult × Nat) :
    (decide (a.1.latency ≤ b.1.latency) || decide (b.1.latency ≤ a.1.latency)) = true := by
  simp only [Bool.or_eq_true, decide_eq_true_eq]
  exact Nat.le_total _ _

/-- The results of one latency keep the order of the catalog. -/
theorem filter_ranked (results : List ProbeResult) (d : Duration) :
    (ranked results).filter (·.1.latency = d) = (answered results).filter (·.1.latency = d) := by
  have hsame : ∀ x ∈ (answered results).filter (·.1.latency = d), x.1.latency = d := by
    intro x hx
    exact of_decide_eq_true (List.mem_filter.mp hx).2
  have hsorted : ((answered results).filter (·.1.latency = d)).Pairwise
      fun a b => decide (a.1.latency ≤ b.1.latency) = true := by
    refine List.pairwise_of_forall_mem_list fun a ha b hb => ?_
    rw [hsame a ha, hsame b hb]
    exact decide_eq_true (Nat.le_refl _)
  -- the sort keeps them a sublist, and as a permutation it brings in no others
  have hsub : ((answered results).filter (·.1.latency = d)).Sublist (ranked results) :=
    List.sublist_mergeSort latency_le_trans latency_le_total hsorted List.filter_sublist
  have hfilter := hsub.filter (·.1.latency = d)
  simp only [List.filter_filter, Bool.and_self] at hfilter
  exact (hfilter.eq_of_length (((ranked_perm results).filter _).length_eq).symm).symm

/-- The fastest stand first, and of those that are as fast the earlier in the catalog. -/
theorem pairwise_ranked (results : List ProbeResult) : (ranked results).Pairwise Outranks := by
  have hsorted : (ranked results).Pairwise
      fun a b => decide (a.1.latency ≤ b.1.latency) = true :=
    List.pairwise_mergeSort latency_le_trans latency_le_total _
  rw [List.pairwise_iff_forall_sublist] at hsorted ⊢
  intro a b hab
  have hle : a.1.latency ≤ b.1.latency := of_decide_eq_true (hsorted hab)
  rcases Nat.lt_or_eq_of_le hle with hlt | heq
  · exact Or.inl hlt
  · have hlatency : a.1.latency = b.1.latency := congrArg Duration.mk heq
    have hpair : [a, b].filter (·.1.latency = b.1.latency) = [a, b] := by simp [hlatency]
    have hsub := hab.filter (·.1.latency = b.1.latency)
    rw [filter_ranked, hpair] at hsub
    have hplaces := ((pairwise_answered results).filter _).sublist hsub
    exact Or.inr ⟨hlatency, List.rel_of_pairwise_cons hplaces (List.mem_singleton_self b)⟩

/-! ## Places -/

theorem ahead_eq (results : List ProbeResult) (x : ProbeResult × Nat) :
    ahead results x = (ranked results).countP fun a => decide (Outranks a x) := by
  rw [(ranked_perm results).countP_eq, answered, List.countP_filter]
  exact List.countP_congr fun a _ => by rw [Bool.and_comm]

theorem rankReachable_eq (results : List ProbeResult) (n : Nat) :
    rankReachable results n = ((ranked results).take n).map (·.1.candidate) := by
  have hmap : (ranked results).map (·.1) = (results.filter (·.reachable)).mergeSort
      fun a b => decide (a.latency ≤ b.latency) := by
    rw [← map_answered]
    exact List.map_mergeSort fun _ _ _ _ => rfl
  rw [rankReachable, ← hmap, ← List.map_take, List.map_map]
  rfl

/-- At place `p` of the closest peers stands the reachable one that `p` others are ranked before. -/
theorem getElem?_rankReachable {results : List ProbeResult} {n p : Nat} {url : Url} :
    (rankReachable results n)[p]? = some url ↔ p < n ∧ ∃ k r, results[k]? = some r ∧
      r.reachable = true ∧ r.candidate = url ∧ ahead results (r, k) = p := by
  rw [rankReachable_eq, List.getElem?_map, Option.map_eq_some_iff]
  simp only [List.getElem?_take, Option.ite_none_right_eq_some]
  constructor
  · rintro ⟨⟨r, k⟩, ⟨hlt, hp⟩, rfl⟩
    have hmem : (r, k) ∈ answered results :=
      (ranked_perm results).mem_iff.mp (List.mem_of_getElem? hp)
    obtain ⟨hk, hr⟩ := mem_answered.mp hmem
    refine ⟨hlt, k, r, hk, hr, rfl, ?_⟩
    rw [ahead_eq]
    exact countP_of_pairwise Outranks.asymm (pairwise_ranked results) hp
  · rintro ⟨hlt, k, r, hk, hr, rfl, rfl⟩
    have hmem : (r, k) ∈ ranked results :=
      (ranked_perm results).mem_iff.mpr (mem_answered.mpr ⟨hk, hr⟩)
    obtain ⟨p, hp⟩ := List.getElem?_of_mem hmem
    have hplace : ahead results (r, k) = p := by
      rw [ahead_eq]
      exact countP_of_pairwise Outranks.asymm (pairwise_ranked results) hp
    rw [hplace] at hlt ⊢
    exact ⟨(r, k), ⟨hlt, hp⟩, rfl⟩

/-- The closest peers are the reachable ones that fewer than `n` others are ranked before. -/
theorem mem_rankReachable {results : List ProbeResult} {n : Nat} {url : Url} :
    url ∈ rankReachable results n ↔ ∃ k r, results[k]? = some r ∧ r.reachable = true ∧
      r.candidate = url ∧ ahead results (r, k) < n := by
  rw [List.mem_iff_getElem?]
  constructor
  · rintro ⟨p, hp⟩
    obtain ⟨hlt, k, r, hk, hr, hurl, rfl⟩ := getElem?_rankReachable.mp hp
    exact ⟨k, r, hk, hr, hurl, hlt⟩
  · rintro ⟨k, r, hk, hr, hurl, hlt⟩
    exact ⟨_, getElem?_rankReachable.mpr ⟨hlt, k, r, hk, hr, hurl, rfl⟩⟩

/-! ## The ranking -/

/-- Whether a list is the ranking of some results: the reachable ones with their places, none
before a faster one, and those of one latency in the order in which they were probed. -/
structure IsRanking (results : List ProbeResult) (xs : List (ProbeResult × Nat)) : Prop where
  perm : xs.Perm (answered results)
  sorted : xs.Pairwise fun a b => a.1.latency ≤ b.1.latency
  stable : xs.Pairwise fun a b => a.1.latency = b.1.latency → a.2 < b.2

theorem isRanking_ranked (results : List ProbeResult) : IsRanking results (ranked results) where
  perm := ranked_perm results
  sorted := by
    refine (pairwise_ranked results).imp ?_
    rintro a b (hlt | ⟨heq, -⟩)
    · exact Nat.le_of_lt hlt
    · exact heq ▸ Nat.le_refl _
  stable := by
    refine (pairwise_ranked results).imp ?_
    rintro a b (hlt | ⟨-, hlt⟩) heq
    · exact absurd (heq ▸ hlt) (Nat.lt_irrefl b.1.latency.nanos)
    · exact hlt

theorem IsRanking.pairwise {results : List ProbeResult} {xs : List (ProbeResult × Nat)}
    (h : IsRanking results xs) : xs.Pairwise Outranks := by
  refine (h.sorted.and h.stable).imp fun {a b} ⟨hle, hplace⟩ => ?_
  rcases Nat.lt_or_eq_of_le hle with hlt | heq
  · exact .inl hlt
  · have hlatency : a.1.latency = b.1.latency := congrArg Duration.mk heq
    exact .inr ⟨hlatency, hplace hlatency⟩

/-- Results have one ranking only: a strict order leaves a permutation no choice. -/
theorem IsRanking.eq_ranked {results : List ProbeResult} {xs : List (ProbeResult × Nat)}
    (h : IsRanking results xs) : xs = ranked results :=
  (h.perm.trans (ranked_perm results).symm).eq_of_pairwise
    (fun a b _ _ hab hba => absurd hba (Outranks.asymm a b hab)) h.pairwise
    (pairwise_ranked results)

theorem length_rankReachable (results : List ProbeResult) (n : Nat) :
    (rankReachable results n).length = min n (results.countP (·.reachable)) := by
  rw [rankReachable, List.length_map, List.length_take, List.length_mergeSort,
    List.countP_eq_length_filter]

/-- Asking for more peers adds to the end. -/
theorem rankReachable_prefix (results : List ProbeResult) {m n : Nat} (h : m ≤ n) :
    rankReachable results m <+: rankReachable results n := by
  rw [rankReachable_eq, rankReachable_eq]
  exact (List.take_prefix_take_left h).map _

/-- The second list is the first with results put in anywhere that are not reachable. -/
inductive Diluted : List ProbeResult → List ProbeResult → Prop
  | nil : Diluted [] []
  | keep {results others : List ProbeResult} (r : ProbeResult) :
      Diluted results others → Diluted (r :: results) (r :: others)
  | insert {results others : List ProbeResult} {r : ProbeResult} :
      r.reachable = false → Diluted results others → Diluted results (r :: others)

theorem Diluted.filter_eq {results others : List ProbeResult} (h : Diluted results others) :
    others.filter (·.reachable) = results.filter (·.reachable) := by
  induction h with
  | nil => rfl
  | keep r _ ih => rw [List.filter_cons, List.filter_cons, ih]
  | insert hr _ ih => rw [List.filter_cons, if_neg (by rw [hr]; decide), ih]

theorem Diluted.rankReachable_eq {results others : List ProbeResult} (h : Diluted results others)
    (n : Nat) : rankReachable others n = rankReachable results n := by
  rw [rankReachable, rankReachable, h.filter_eq]

/-- **The ranking of results.** Results have one ranking and no other; for every `n` the closest
peers are the candidates of its first `n`, which are `n` or all that are reachable; so asking for
more adds to the end, and results that are not reachable can be put in or left out anywhere. -/
theorem closest_by_ranking (results : List ProbeResult) :
    (∃ xs, IsRanking results xs ∧ (∀ ys, IsRanking results ys → ys = xs) ∧
      ∀ n, rankReachable results n = (xs.take n).map (·.1.candidate)) ∧
    (∀ n, (rankReachable results n).length = min n (results.countP (·.reachable))) ∧
    (∀ m n, m ≤ n → rankReachable results m <+: rankReachable results n) ∧
    ∀ others, Diluted results others → ∀ n, rankReachable others n = rankReachable results n := by
  refine ⟨⟨ranked results, isRanking_ranked results, fun ys hys => hys.eq_ranked, ?_⟩, ?_, ?_, ?_⟩
  · exact fun n => rankReachable_eq results n
  · exact fun n => length_rankReachable results n
  · exact fun m n h => rankReachable_prefix results h
  · exact fun others h n => h.rankReachable_eq n

/-- A peer by its name. -/
def peerNamed (name : String) : Url :=
  ⟨"tcp", some ⟨"", "", some (.name name), some 4000⟩, .plain "", none, none⟩

/-- What came of probing a peer. -/
def probed (name : String) (reachable : Bool) (millis : Nat) : ProbeResult :=
  ⟨peerNamed name, reachable, .ofMillis millis⟩

/-- Two peers are as fast and keep their order behind a faster one; the fastest of all is lost. -/
theorem tie_in_probe_order :
    let results := [probed "z" true 7, probed "x" false 1, probed "a" true 7, probed "m" true 2]
    let ranking := [(probed "m" true 2, 3), (probed "z" true 7, 0), (probed "a" true 7, 2)]
    IsRanking results ranking ∧
      rankReachable results 2 = [peerNamed "m", peerNamed "z"] ∧
      (1 ≤ 2 ∧ rankReachable results 1 <+: rankReachable results 2) ∧
      Diluted (results.eraseIdx 1) results ∧
        rankReachable results 2 = rankReachable (results.eraseIdx 1) 2 := by
  intro results ranking
  have hanswered : answered results =
      [(probed "z" true 7, 0), (probed "a" true 7, 2)] ++ [(probed "m" true 2, 3)] := rfl
  have hranking : IsRanking results ranking :=
    ⟨hanswered ▸ (List.perm_append_singleton _ _).symm, by decide, by decide⟩
  have hdiluted : Diluted (results.eraseIdx 1) results :=
    .keep _ (.insert rfl (.keep _ (.keep _ .nil)))
  obtain ⟨xs, -, honly, hcut⟩ := (closest_by_ranking results).1
  obtain rfl : ranking = xs := honly ranking hranking
  exact ⟨hranking, hcut 2, ⟨by decide, (closest_by_ranking results).2.2.1 1 2 (by decide)⟩,
    hdiluted, (closest_by_ranking _).2.2.2 _ hdiluted 2⟩

end MeshNode.Peering
