import Mathlib.Data.List.Induction
import MeshNode.Proofs.Peering.Books
import MeshNode.Proofs.Peering.Probing
import MeshNode.Proofs.Peering.Ranking
import MeshNode.Proofs.Peering.Rounds

/-!
# Whom a loop calls

A run that calls a peer has chosen it among the fastest that answered in the one
round of probes that the run has made. So every peer that is called stands in the
catalog, can be dialled, was reached in that round, and has fewer reachable entries
ranked before it than the run may choose from.

* **one round a run** — `roundLaw_after`: what a run has chosen from, as long as its
  choice matters;
* **how many a run may choose from** — `readIn_after`: what the settings have said
  at some time;
* **entries of the catalog** — `Offers.exists_nearby`;
* **the law** — `called_among_fastest`.
-/

namespace MeshNode.Peering

/-! ## Rounds that have ended -/

/-- A round of probes that has ended: the run that made it, how many of the fastest peers the run
may choose from, and what the probes have found. -/
structure EndedRound where
  run : Nat
  candidates : Nat
  results : List ProbeResult
deriving DecidableEq

/-- The peers that a run may choose from after a round. -/
def EndedRound.closest (q : EndedRound) : List Url := rankReachable q.results q.candidates

/-- How many peers a run that looks at the peer table or probes may choose from. -/
def Stage.candidates? : Stage → Option Nat
  | .look _ n => some n
  | .probing n => some n
  | _ => none

namespace Loop

variable {l : Loop} {v : View} {i : Nat} {r : Run}

/-- The round that a move ends, if it ends one. -/
def endedRound? (l : Loop) : Move → Option EndedRound
  | .probesEnd i results =>
    match l.runs[i]? with
    | some ⟨_, .probing n⟩ => some ⟨i, n, results⟩
    | _ => none
  | _ => none

/-- The rounds that have ended in a history. -/
def endedRounds (l : Loop) : List Move → List EndedRound
  | [] => []
  | x :: ms => (l.endedRound? x).toList ++ (l.move x).endedRounds ms

/-- The rounds of one run that have ended in a history. -/
def roundsOf (l : Loop) (ms : List Move) (i : Nat) : List EndedRound :=
  (l.endedRounds ms).filter (·.run = i)

theorem endedRounds_append (ms ms' : List Move) :
    l.endedRounds (ms ++ ms') = l.endedRounds ms ++ (l.after ms).endedRounds ms' := by
  induction ms generalizing l with
  | nil => rfl
  | cons x ms ih =>
    rw [List.cons_append, endedRounds, ih, endedRounds, after_cons, List.append_assoc]

theorem roundsOf_append (ms ms' : List Move) :
    l.roundsOf (ms ++ ms') i = l.roundsOf ms i ++ (l.after ms).roundsOf ms' i := by
  rw [roundsOf, endedRounds_append, List.filter_append]
  rfl

theorem endedRounds_singleton (x : Move) : l.endedRounds [x] = (l.endedRound? x).toList :=
  List.append_nil _

theorem roundsOf_concat (ms : List Move) (x : Move) :
    l.roundsOf (ms ++ [x]) i =
      l.roundsOf ms i ++ ((l.after ms).endedRound? x).toList.filter (·.run = i) := by
  rw [roundsOf_append, ← endedRounds_singleton]
  rfl

theorem mem_endedRounds_of_roundsOf {ms : List Move} {q : EndedRound}
    (h : l.roundsOf ms i = [q]) : q ∈ l.endedRounds ms := by
  have hmem : q ∈ l.roundsOf ms i := by
    rw [h]
    exact List.mem_singleton_self q
  exact (List.mem_filter.mp hmem).1

theorem endedRound?_eq_some {x : Move} {q : EndedRound} (h : l.endedRound? x = some q) :
    ∃ g, l.runs[q.run]? = some ⟨g, .probing q.candidates⟩ ∧ x = .probesEnd q.run q.results := by
  cases x with
  | probesEnd i results =>
    simp only [endedRound?] at h
    split at h
    · next g n hr =>
      cases h
      exact ⟨g, hr, rfl⟩
    · cases h
  | _ => cases h

/-- What a round has found is what some move has told. -/
theorem mem_of_mem_endedRounds {ms : List Move} {q : EndedRound} (h : q ∈ l.endedRounds ms) :
    .probesEnd q.run q.results ∈ ms := by
  induction ms generalizing l with
  | nil => cases h
  | cons x ms ih =>
    rcases List.mem_append.mp h with h | h
    · obtain ⟨g, -, hx⟩ := endedRound?_eq_some (Option.mem_toList.mp h)
      rw [hx]
      exact List.mem_cons_self
    · exact List.mem_cons_of_mem x (ih h)

/-! ## One round a run -/

theorem proxy_step : (l.step v i).proxy = l.proxy := by
  cases h : l.runs[i]? with
  | none => rw [step_none h]
  | some r =>
    rw [step_eq h]
    show (l.effect v r).proxy = l.proxy
    obtain ⟨g, stage⟩ := r
    cases stage with
    | look => simp only [effect]; split <;> rfl
    | replace timer =>
      show (l.abort l.pending).proxy = l.proxy
      cases l.pending <;> rfl
    | _ => rfl

/-- The proxy of a loop is the one that it was set up with. -/
theorem proxy_move (x : Move) : (l.move x).proxy = l.proxy := by
  cases x with
  | command c => simp only [move]; split <;> rfl
  | owner =>
    show l.controlStep.proxy = l.proxy
    unfold controlStep
    cases l.control with
    | markStarted | markStopped => dsimp only; split <;> rfl
    | takePending => cases l.pending <;> rfl
    | _ => rfl
  | run i v => exact proxy_step
  | probesEnd i results =>
    rcases l.probesEnd_eq (i := i) results with he | ⟨g, n, -, he⟩ <;> rw [move, he]
    rfl
  | callEnds i =>
    rcases l.callEnds_eq (i := i) with he | ⟨g, uri, -, he⟩ <;> rw [move, he]
    rfl
  | fire t => rcases l.fire_eq t with he | ⟨g, d, -, he⟩ <;> rw [move, he]

theorem proxy_after (ms : List Move) : (l.after ms).proxy = l.proxy :=
  after_induction (P := fun m => m.proxy = l.proxy) rfl (fun _ x h => (proxy_move x).trans h) ms

/-- Whether a run may call a URL after a round: it leads to one of the closest peers. -/
def Offers (l : Loop) (q : EndedRound) (uri : Url) : Prop :=
  ∃ c ∈ q.closest, l.peerUrl c = .ok uri

theorem offers_of_choose? {m : Loop} (hproxy : m.proxy = l.proxy) {draw : Sampler}
    {q : EndedRound} {uri : Url} (h : m.choose? draw q.closest = some uri) : l.Offers q uri := by
  unfold choose? at h
  split at h
  · cases h
  · next chosen rest hpick =>
    have hmem : chosen ∈ randomPick draw q.closest 1 := by
      rw [hpick]
      exact List.mem_cons_self
    refine ⟨chosen, ?_, ?_⟩
    · unfold randomPick at hmem
      split at hmem
      · exact hmem
      · obtain ⟨p, -, rfl⟩ := List.mem_map.mp hmem
        exact List.get_mem _ _
    · cases hurl : m.peerUrl chosen with
      | error e =>
        rw [hurl] at h
        cases h
      | ok url =>
        rw [hurl] at h
        cases h
        rw [← hurl, peerUrl, peerUrl, hproxy]

/-- What the rounds of a run have to do with the stage that it has reached. -/
def RoundLaw (l : Loop) (qs : List EndedRound) : Stage → Prop
  | .entry => qs = []
  | .entryGeneration => qs = []
  | .limits => qs = []
  | .look _ _ => qs = []
  | .probing _ => qs = []
  | .resumed closest => ∃ q, qs = [q] ∧ closest = q.closest
  | .resumedGeneration closest => ∃ q, qs = [q] ∧ closest = q.closest
  | .record uri => ∃ q, qs = [q] ∧ l.Offers q uri
  | .call uri => ∃ q, qs = [q] ∧ l.Offers q uri
  | _ => qs.length ≤ 1

theorem RoundLaw.nextStage {m : Loop} (hproxy : m.proxy = l.proxy) {qs : List EndedRound}
    (h : l.RoundLaw qs r.stage) : l.RoundLaw qs (m.nextStage v r) := by
  have hnil : qs = [] → qs.length ≤ 1 := fun h => h ▸ Nat.zero_le 1
  have hone : ∀ q, qs = [q] → qs.length ≤ 1 := fun q h => h ▸ Nat.le_refl 1
  obtain ⟨g, stage⟩ := r
  cases stage with
  | entry | entryGeneration =>
    simp only [Loop.nextStage]
    split
    · exact h
    · exact hnil h
  | look timeout n =>
    simp only [Loop.nextStage]
    split
    · exact hnil h
    · split
      · exact h
      · exact hnil h
  | resumed closest =>
    obtain ⟨q, hq, hclosest⟩ := h
    simp only [Loop.nextStage]
    split
    · exact ⟨q, hq, hclosest⟩
    · exact hone q hq
  | resumedGeneration closest =>
    obtain ⟨q, hq, hclosest⟩ := h
    simp only [Loop.nextStage]
    split
    · split
      · next uri huri => exact ⟨q, hq, offers_of_choose? hproxy (hclosest ▸ huri)⟩
      · exact hone q hq
    · exact hone q hq
  | call uri =>
    obtain ⟨q, hq, -⟩ := h
    exact hone q hq
  | closing | closingGeneration =>
    simp only [Loop.nextStage]
    split <;> exact h
  | limits | probing | record | calling | delay | arm | replace | ended => exact h

/-- How a history and the rounds of a run are related at every moment. -/
structure Rounded (l : Loop) (ms : List Move) (i : Nat) : Prop where
  vacant : (l.after ms).runs[i]? = none → l.roundsOf ms i = []
  law : ∀ r, (l.after ms).runs[i]? = some r → l.RoundLaw (l.roundsOf ms i) r.stage

/-- A move that ends a round of the run takes it to its choice. -/
theorem Rounded.of_ended {ms : List Move} (h : l.Rounded ms i) {x : Move} {q : EndedRound}
    (hx : (l.after ms).endedRound? x = some q) (hq : q.run = i) : l.Rounded (ms ++ [x]) i := by
  obtain ⟨g, hr, rfl⟩ := endedRound?_eq_some hx
  rw [hq] at hr hx
  have hnext : ((l.after ms).move (.probesEnd i q.results)).runs[i]? =
      some ⟨g, .resumed q.closest⟩ := by
    rw [move, probesEnd, hr]
    exact getElem?_setStage_self hr _
  have hqs : l.roundsOf (ms ++ [.probesEnd i q.results]) i = [q] := by
    have hnil : l.roundsOf ms i = [] := h.law _ hr
    rw [roundsOf_concat, hnil, hx]
    simp [hq]
  rw [hq]
  refine ⟨fun hnone => ?_, fun r hr' => ?_⟩
  · rw [after_concat, hnext] at hnone
    cases hnone
  · rw [after_concat, hnext] at hr'
    cases hr'
    rw [hqs]
    exact ⟨q, rfl, rfl⟩

theorem Rounded.of_not_ended {ms : List Move} (h : l.Rounded ms i) {x : Move}
    (hx : ∀ q, (l.after ms).endedRound? x = some q → q.run ≠ i) : l.Rounded (ms ++ [x]) i := by
  have hqs : l.roundsOf (ms ++ [x]) i = l.roundsOf ms i := by
    rw [roundsOf_concat]
    cases hend : (l.after ms).endedRound? x with
    | none => exact List.append_nil _
    | some q => simp [hx q hend]
  have hproxy : (l.after ms).proxy = l.proxy := proxy_after ms
  refine ⟨fun hnone => ?_, fun r hr => ?_⟩
  · rw [hqs]
    apply h.vacant
    rw [after_concat] at hnone
    cases hold : (l.after ms).runs[i]? with
    | none => rfl
    | some r =>
      obtain ⟨s, hs, -⟩ := leads_move hold x
      rw [hs] at hnone
      cases hnone
  · rw [hqs]
    rw [after_concat] at hr
    cases hold : (l.after ms).runs[i]? with
    | none =>
      rw [stage_of_begun hold hr]
      exact h.vacant hold
    | some r' =>
      obtain ⟨s, hs, hleads⟩ := leads_move hold x
      rw [hs] at hr
      cases hr
      have hlaw := h.law r' hold
      cases hleads with
      | same => exact hlaw
      | step v => exact hlaw.nextStage hproxy
      | @probesEnd n results hstage =>
        -- that would have ended a round of the run
        obtain ⟨g, stage⟩ := r'
        obtain rfl : stage = .probing n := hstage
        have hend : (l.after ms).endedRound? (.probesEnd i results) = some ⟨i, n, results⟩ := by
          rw [endedRound?, hold]
        exact absurd rfl (hx _ hend)
      | callEnds hstage =>
        rw [hstage] at hlaw
        exact hlaw

/-- A run makes one round at most, and what it may call is among the closest peers of that. -/
theorem rounded_after (hruns : l.runs = []) (ms : List Move) : l.Rounded ms i := by
  induction ms using List.reverseRecOn with
  | nil =>
    refine ⟨fun _ => rfl, fun r hr => ?_⟩
    rw [after_nil, hruns] at hr
    cases hr
  | append_singleton ms x ih =>
    by_cases hx : ∃ q, (l.after ms).endedRound? x = some q ∧ q.run = i
    · obtain ⟨q, hend, hq⟩ := hx
      exact ih.of_ended hend hq
    · exact ih.of_not_ended fun q hend hq => hx ⟨q, hend, hq⟩

/-! ## How many a run may choose from -/

/-- Whether the settings of a loop have said at some time of a history how many to choose from. -/
def ReadIn (l : Loop) (ms : List Move) (n : Nat) : Prop :=
  ∃ ms₁ ms₂, ms = ms₁ ++ ms₂ ∧ (l.after ms₁).settings.maxCandidates = n

theorem ReadIn.concat {ms : List Move} {n : Nat} (h : l.ReadIn ms n) (x : Move) :
    l.ReadIn (ms ++ [x]) n := by
  obtain ⟨ms₁, ms₂, rfl, hn⟩ := h
  exact ⟨ms₁, ms₂ ++ [x], List.append_assoc .., hn⟩

theorem candidates?_nextStage {n : Nat} (h : (l.nextStage v r).candidates? = some n) :
    r.stage.candidates? = some n ∨ l.settings.maxCandidates = n := by
  obtain ⟨g, stage⟩ := r
  cases stage with
  | limits => exact Or.inr (Option.some.inj h)
  | look timeout m =>
    simp only [nextStage] at h
    split at h
    · cases h
    · split at h
      · exact Or.inl h
      · cases h
  | probing => exact Or.inl h
  | entry | entryGeneration | resumed | closing | closingGeneration =>
    simp only [nextStage] at h
    split at h <;> cases h
  | resumedGeneration =>
    simp only [nextStage] at h
    split at h
    · split at h <;> cases h
    · cases h
  | _ => cases h

/-- What a run goes by was said by the settings at some time. -/
theorem readIn_stage (hruns : l.runs = []) (ms : List Move) {n : Nat}
    (hr : (l.after ms).runs[i]? = some r) (hn : r.stage.candidates? = some n) :
    l.ReadIn ms n := by
  induction ms using List.reverseRecOn generalizing r with
  | nil =>
    rw [after_nil, hruns] at hr
    cases hr
  | append_singleton ms x ih =>
    rw [after_concat] at hr
    cases hold : (l.after ms).runs[i]? with
    | none =>
      rw [stage_of_begun hold hr] at hn
      cases hn
    | some r' =>
      obtain ⟨s, hs, hleads⟩ := leads_move hold x
      rw [hs] at hr
      cases hr
      cases hleads with
      | same => exact (ih hold hn).concat x
      | step v =>
        rcases candidates?_nextStage hn with hbefore | hnow
        · exact (ih hold hbefore).concat _
        · exact ⟨ms, [_], rfl, hnow⟩
      | probesEnd => cases hn
      | callEnds => cases hn

theorem readIn_after (hruns : l.runs = []) {ms : List Move} {q : EndedRound}
    (h : q ∈ l.endedRounds ms) : l.ReadIn ms q.candidates := by
  induction ms using List.reverseRecOn with
  | nil => cases h
  | append_singleton ms x ih =>
    rw [endedRounds_append, endedRounds_singleton] at h
    rcases List.mem_append.mp h with h | h
    · exact (ih h).concat x
    · obtain ⟨g, hr, -⟩ := endedRound?_eq_some (Option.mem_toList.mp h)
      exact (readIn_stage hruns ms hr rfl).concat x

/-! ## Entries of the catalog -/

/-- Whether results are those of a round of probes over a catalog, with any outcomes of its dials
in any order. -/
def FoundBy (catalog : List Url) (proxy : Option Proxy) (results : List ProbeResult) : Prop :=
  ∃ timeout outcome schedule, (∀ xs, List.Perm (schedule xs) xs) ∧
    results = probePeers proxy timeout outcome schedule catalog

/-- Whether the entry at a place of a catalog can be dialled, has answered in a round, and is one
of the fastest that the run may choose from. -/
structure Nearby (catalog : List Url) (q : EndedRound) (k : Nat) (c : Url) : Prop where
  entry : catalog[k]? = some c
  supported : Catalog.isSupported c = true
  endpoint : ∃ target, c.endpoint? = some target
  near : ∃ d, q.results[k]? = some ⟨c, true, d⟩ ∧ ahead q.results (⟨c, true, d⟩, k) < q.candidates

theorem exists_nearby {catalog : List Url} {proxy : Option Proxy} {q : EndedRound} {c : Url}
    (hfound : FoundBy catalog proxy q.results) (h : c ∈ q.closest) :
    ∃ k, Nearby catalog q k c := by
  obtain ⟨timeout, outcome, schedule, hschedule, hresults⟩ := hfound
  obtain ⟨k, r, hk, hreachable, hc, hahead⟩ := mem_rankReachable.mp h
  have hprobe := hk
  rw [hresults, getElem?_probePeers hschedule, Option.map_eq_some_iff] at hprobe
  obtain ⟨c', hentry, hr⟩ := hprobe
  have hc' : c' = c := by rw [← hc, ← hr, candidate_probeResult]
  subst hc'
  rw [← hr] at hreachable
  obtain ⟨after, houtcome, hle⟩ := reachable_probeResult_iff.mp hreachable
  obtain ⟨d, hd, -⟩ := Option.map_eq_some_iff.mp houtcome
  obtain ⟨hsupported, hendpoint⟩ := exists_dial_iff.mp ⟨d, hd⟩
  have hresult : r = ⟨c', true, after⟩ := by
    rw [← hr, houtcome, probeResult, if_pos hle]
  exact ⟨k, hentry, hsupported, hendpoint, after, hresult ▸ hk, hresult ▸ hahead⟩

/-- A round without a reachable entry, or one that the run may choose nothing from. -/
theorem closest_eq_nil {q : EndedRound}
    (h : (∀ r ∈ q.results, r.reachable = false) ∨ q.candidates = 0) : q.closest = [] := by
  rw [List.eq_nil_iff_forall_not_mem]
  intro c hc
  obtain ⟨k, r, hk, hreachable, -, hahead⟩ := mem_rankReachable.mp hc
  rcases h with hnone | hzero
  · have hr := hnone r (List.mem_of_getElem? hk)
    rw [hreachable] at hr
    cases hr
  · rw [hzero] at hahead
    exact Nat.not_lt_zero _ hahead

/-! ## The law -/

/-- A call is made by a run that has noted the URL. -/
theorem calls_move (x : Move) :
    (l.move x).calls = l.calls ∨ ∃ i v g uri, x = .run i v ∧ l.runs[i]? = some ⟨g, .call uri⟩ ∧
      (l.move x).calls = l.calls ++ [uri] := by
  rcases books_move (l := l) x with hsame | ⟨i, v, ⟨g, stage⟩, rfl, hr, hbooks⟩
  · exact Or.inl (congrArg Books.calls hsame)
  · have hcalls : (l.move (.run i v)).calls = (l.books.enter stage).calls :=
      congrArg Books.calls hbooks
    cases stage with
    | call uri => exact Or.inr ⟨i, v, g, uri, rfl, hr, hcalls⟩
    | _ => exact Or.inl hcalls

/-- A run whose round offers nothing makes no entry in the books, whatever happens. -/
theorem books_step_of_closest_eq_nil (hruns : l.runs = []) {ms : List Move} {q : EndedRound}
    (hq : l.roundsOf ms i = [q]) (hnil : q.closest = []) (ms' : List Move) :
    (((l.after ms).after ms').step v i).books = ((l.after ms).after ms').books := by
  rw [← after_append]
  cases hr : (l.after (ms ++ ms')).runs[i]? with
  | none => rw [step_none hr]
  | some r =>
    have hlaw := (rounded_after (i := i) hruns (ms ++ ms')).law r hr
    have hrounds : l.roundsOf (ms ++ ms') i = q :: (l.after ms).roundsOf ms' i := by
      rw [roundsOf_append, hq]
      rfl
    have hno : ∀ uri, ¬ ∃ q', l.roundsOf (ms ++ ms') i = [q'] ∧ l.Offers q' uri := by
      rintro uri ⟨q', hq', c, hc, -⟩
      rw [hrounds] at hq'
      obtain ⟨rfl, -⟩ := List.cons.inj hq'
      rw [hnil] at hc
      cases hc
    rw [books_step hr]
    cases hs : r.stage with
    | record uri =>
      rw [hs] at hlaw
      exact absurd hlaw (hno uri)
    | call uri =>
      rw [hs] at hlaw
      exact absurd hlaw (hno uri)
    | _ => rfl

/-- A run whose choice cannot be reached makes no entry in the books, whatever happens. -/
theorem books_step_of_rejected {g : Nat} {closest : List Url} {c : Url} {e : ProxyError}
    (hr : l.runs[i]? = some ⟨g, .resumedGeneration closest⟩)
    (hpick : randomPick v.draw closest 1 = [c]) (hreject : l.peerUrl c = .error e) :
    (l.step v i).books = l.books ∧
      ∀ ms v', (((l.step v i).after ms).step v' i).books = ((l.step v i).after ms).books := by
  have hchoose : l.choose? v.draw closest = none := by
    rw [choose?, hpick]
    simp only [hreject]
    rfl
  have hnext := getElem?_step_self (v := v) hr
  simp only [nextStage, hchoose, ite_self] at hnext
  refine ⟨books_step hr, fun ms v' => ?_⟩
  obtain ⟨s, hs, hclosing⟩ := isClosing_after hnext rfl ms
  rw [books_step hs]
  cases s with
  | record | call => exact absurd hclosing Bool.false_ne_true
  | _ => rfl

/-- In every history whose rounds find what probes of the catalog can find: a call is made by a
run that has made one round, and leads to an entry of the catalog that can be dialled, has answered
in that round and has fewer reachable entries ranked before it than the settings have allowed; a
run makes no entry in the books, ever, if its round reached nobody, if it may choose from nobody,
or once the peer of its choice cannot be reached; the number noted is that of the calls and of the
runs between their note and their call; and when runs are not interrupted between their waits, it
is that of the calls, and the last candidate is the last one called. -/
theorem called_among_fastest (catalog : List Url) (proxy : Option Proxy)
    (settings : PeeringSettings) (ms : List Move)
    (hprobes : ∀ i results, Move.probesEnd i results ∈ ms → FoundBy catalog proxy results) :
    let l₀ := fresh catalog proxy settings
    let l := l₀.after ms
    (∀ x, (l.move x).calls = l.calls ∨ ∃ i v q k c uri, x = .run i v ∧ l₀.roundsOf ms i = [q] ∧
      l₀.ReadIn ms q.candidates ∧ Nearby catalog q k c ∧ l.peerUrl c = .ok uri ∧
      (l.move x).calls = l.calls ++ [uri]) ∧
    (∀ i q, l₀.roundsOf ms i = [q] →
      (∀ r ∈ q.results, r.reachable = false) ∨ q.candidates = 0 →
      ∀ ms' v, ((l.after ms').step v i).books = (l.after ms').books) ∧
    (∀ i v g closest c e, l.runs[i]? = some ⟨g, .resumedGeneration closest⟩ →
      randomPick v.draw closest 1 = [c] → l.peerUrl c = .error e →
      (l.step v i).books = l.books ∧
        ∀ ms' v', (((l.step v i).after ms').step v' i).books = ((l.step v i).after ms').books) ∧
    l.attempts = l.calls.length + l.uncalled ∧
    ∀ es, let m := l₀.afterEvents es
      m.attempts = m.calls.length ∧ m.lastCandidate = m.calls.getLast? := by
  intro l₀ l
  have hruns : l₀.runs = [] := rfl
  refine ⟨fun x => ?_, ?_, ?_, ?_, ?_⟩
  · rcases calls_move (l := l) x with hsame | ⟨i, v, g, uri, rfl, hr, hcalls⟩
    · exact Or.inl hsame
    · obtain ⟨q, hq, c, hc, huri⟩ := (rounded_after (i := i) hruns ms).law _ hr
      have hmem : q ∈ l₀.endedRounds ms := mem_endedRounds_of_roundsOf hq
      obtain ⟨k, hnear⟩ := exists_nearby (hprobes _ _ (mem_of_mem_endedRounds hmem)) hc
      have huri' : l.peerUrl c = .ok uri := by
        rw [peerUrl, proxy_after ms]
        exact huri
      exact Or.inr ⟨i, v, q, k, c, uri, rfl, hq, readIn_after hruns hmem, hnear, huri', hcalls⟩
  · intro i q hq hnobody ms' v
    exact books_step_of_closest_eq_nil hruns hq (closest_eq_nil hnobody) ms'
  · intro i v g closest c e hr hpick hreject
    exact books_step_of_rejected hr hpick hreject
  · have hfresh : l₀.Counted := rfl
    exact hfresh.after ms
  · exact fun es => balanced_afterEvents catalog proxy settings es

/-- Two peers, of which the second answers faster. -/
def racers : List Url :=
  [⟨"tcp", some ⟨"", "", some (.name "slow.example"), some 4000⟩, .plain "", none, none⟩,
    ⟨"tls", some ⟨"", "", some (.name "fast.example"), some 4001⟩, .plain "", none, none⟩]

/-- What a round over the two peers finds; the probe of the faster one ends first. -/
def raceResults : List ProbeResult :=
  probePeers none (.ofSecs 3) (fun i _ => .connected (.ofMillis (2 - i))) List.reverse racers

theorem closest_racer : rankReachable raceResults 1 = racers.drop 1 := by
  obtain ⟨slow, fast, hresults, hreachable, hcandidate, hahead⟩ : ∃ slow fast,
      raceResults = [slow, fast] ∧ fast.reachable = true ∧ [fast.candidate] = racers.drop 1 ∧
        ahead [slow, fast] (fast, 1) = 0 :=
    ⟨_, _, (probePeers_eq List.reverse_perm).trans rfl, rfl, rfl, rfl⟩
  have hfirst : (rankReachable raceResults 1)[0]? = some fast.candidate :=
    getElem?_rankReachable.mpr ⟨Nat.one_pos, 1, fast, hresults ▸ rfl, hreachable, rfl,
      hresults ▸ hahead⟩
  have hlength : (rankReachable raceResults 1).length ≤ 1 := by
    rw [rankReachable, List.length_map, List.length_take]
    exact Nat.min_le_left _ _
  rw [← hcandidate]
  apply List.ext_getElem?
  rintro (_ | i)
  · exact hfirst
  · exact List.getElem?_eq_none (Nat.le_trans hlength (Nat.le_add_left 1 i))

/-- The first run begins a round of probes, -/
def raceBegins : List Move :=
  .command .start :: List.replicate 4 .owner ++ List.replicate 4 (.run 0 (lonely .zero))

/-- and when they have ended it notes the one peer that it may choose from. -/
def race : List Move :=
  raceBegins ++ .probesEnd 0 raceResults :: List.replicate 3 (.run 0 (lonely .zero))

/-- A run that may choose from one peer calls the faster of two that have answered. -/
theorem faster_racer_called :
    let l := (fresh racers none { enable := true, maxCandidates := 1 }).after race
    (∀ i results, Move.probesEnd i results ∈ race → FoundBy racers none results) ∧
      racers[1]? = (l.move (.run 0 (lonely .zero))).calls.head? ∧
      ∃ q k c, Nearby racers q k c ∧ (l.move (.run 0 (lonely .zero))).calls = [c] := by
  intro l
  have hprobes : ∀ i results, Move.probesEnd i results ∈ race → FoundBy racers none results := by
    intro i results h
    have hresults : i = 0 ∧ results = raceResults := by
      simpa [race, raceBegins] using h
    exact ⟨_, _, _, List.reverse_perm, hresults.2⟩
  have hl : l = (((fresh racers none { enable := true, maxCandidates := 1 }).after
      raceBegins).setStage 0 (.resumed (racers.drop 1))).after
        (List.replicate 3 (.run 0 (lonely .zero))) := by
    rw [← closest_racer]
    rfl
  have hnone : l.calls = [] := by rw [hl]; rfl
  have hcalls : (l.move (.run 0 (lonely .zero))).calls = racers.drop 1 := by rw [hl]; rfl
  refine ⟨hprobes, by rw [hcalls]; rfl, ?_⟩
  rcases (called_among_fastest racers none _ race hprobes).1 (.run 0 (lonely .zero)) with
    hsame | ⟨i, v, q, k, c, uri, -, -, -, hnear, huri, hcalled⟩
  · exact absurd (hcalls.symm.trans (hsame.trans hnone)) (by decide)
  · refine ⟨q, k, c, hnear, ?_⟩
    have hself : l.peerUrl c = .ok c := by rw [hl]; rfl
    have hc : c = uri := Except.ok.inj (hself.symm.trans huri)
    rw [hc]
    exact hcalled.trans (congrArg (· ++ [uri]) hnone)

end Loop

end MeshNode.Peering
