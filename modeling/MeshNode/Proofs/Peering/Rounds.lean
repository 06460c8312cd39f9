import Mathlib.Data.List.Induction
import MeshNode.Proofs.Peering.Segments

/-!
# How often rounds of probes begin

Every look at the peer table is a check. A loop keeps the time of its last check
that saw an Internet peer or began a round, whatever run made it, and nothing but
a check changes that time: neither a stop nor new settings make the loop forget.

* **what a loop remembers** — `hadPeers_after`;
* **runs that have seen a peer** — `isClosing_after`;
* **the law** — `rounds_apart`.
-/

namespace MeshNode.Peering

/-- A look of a run at the peer table, and what came of it. -/
structure Check where
  run : Nat
  time : Duration
  /-- How long the node may be without Internet peers, as the run has read it. -/
  timeout : Duration
  seesPeer : Bool
  /-- Whether the run has begun a round of probes. -/
  probes : Bool
deriving DecidableEq

/-- Whether the loop takes note of the time of a check. -/
def Check.isNoted (c : Check) : Bool := c.seesPeer || c.probes

/-- The time of the last check that was taken note of. -/
def lastNoted (cs : List Check) : Option Duration := (cs.filter (·.isNoted)).getLast?.map (·.time)

theorem lastNoted_append (cs ds : List Check) :
    lastNoted (cs ++ ds) = (lastNoted ds).or (lastNoted cs) := by
  rw [lastNoted, List.filter_append, List.getLast?_append, Option.map_or, lastNoted, lastNoted]

namespace Loop

variable {l : Loop} {v : View} {i : Nat} {r : Run}

/-! ## Checks -/

/-- Whether a run waits for its probes. -/
def isProbing (l : Loop) (i : Nat) : Bool :=
  match l.runs[i]? with
  | some ⟨_, .probing _⟩ => true
  | _ => false

theorem isProbing_iff : l.isProbing i = true ↔ ∃ g n, l.runs[i]? = some ⟨g, .probing n⟩ := by
  unfold isProbing
  split
  · next g n h => exact iff_of_true rfl ⟨g, n, h⟩
  · next h => exact iff_of_false Bool.false_ne_true fun ⟨g, n, hr⟩ => h g n hr

/-- The check that a move is, if it is one. -/
def check? (l : Loop) : Move → Option Check
  | .run i v =>
    match l.runs[i]? with
    | some ⟨_, .look timeout _⟩ =>
      some ⟨i, v.now, timeout, hasInternetPeer v.remotes, (l.step v i).isProbing i⟩
    | _ => none
  | _ => none

/-- The checks of a history. -/
def checks (l : Loop) : List Move → List Check
  | [] => []
  | x :: ms => (l.check? x).toList ++ (l.move x).checks ms

theorem checks_concat (ms : List Move) (x : Move) :
    l.checks (ms ++ [x]) = l.checks ms ++ ((l.after ms).check? x).toList := by
  induction ms generalizing l with
  | nil => simp [checks]
  | cons y ms ih => rw [List.cons_append, checks, ih, checks, after_cons, List.append_assoc]

theorem check?_eq_some {x : Move} {c : Check} (h : l.check? x = some c) :
    ∃ v g n, x = .run c.run v ∧ l.runs[c.run]? = some ⟨g, .look c.timeout n⟩ ∧
      c = ⟨c.run, v.now, c.timeout, hasInternetPeer v.remotes,
        (l.step v c.run).isProbing c.run⟩ := by
  cases x with
  | run i v =>
    simp only [check?] at h
    split at h
    · next g timeout n hr =>
      cases h
      exact ⟨v, g, n, rfl, hr, rfl⟩
    · cases h
  | _ => cases h

/-- A run that looks begins a round if it sees no Internet peer and none was seen for too long. -/
theorem isProbing_step_of_look {g n : Nat} {timeout : Duration}
    (h : l.runs[i]? = some ⟨g, .look timeout n⟩) :
    (l.step v i).isProbing i = (!hasInternetPeer v.remotes && l.isOverdue v.now timeout) := by
  rw [isProbing, getElem?_step_self h]
  simp only [nextStage]
  cases hasInternetPeer v.remotes with
  | true => rfl
  | false => cases l.isOverdue v.now timeout <;> rfl

theorem probes_eq {x : Move} {c : Check} (h : l.check? x = some c) :
    c.probes = (!c.seesPeer && l.isOverdue c.time c.timeout) := by
  obtain ⟨v, g, n, rfl, hr, hc⟩ := check?_eq_some h
  rw [hc]
  exact isProbing_step_of_look hr

theorem look_of_nextStage {n : Nat} (h : l.nextStage v r = .probing n) :
    r.stage = .probing n ∨ ∃ timeout, r.stage = .look timeout n := by
  obtain ⟨g, stage⟩ := r
  cases stage with
  | probing => exact Or.inl h
  | look timeout candidates =>
    simp only [nextStage] at h
    split at h
    · cases h
    · split at h
      · cases h
        exact Or.inr ⟨timeout, rfl⟩
      · cases h
  | resumedGeneration =>
    simp only [nextStage] at h
    split at h
    · split at h <;> cases h
    · cases h
  | entry | entryGeneration | resumed | closing | closingGeneration =>
    simp only [nextStage] at h
    split at h <;> cases h
  | _ => cases h

/-- A round of probes begins with a check. -/
theorem check?_of_isProbing {x : Move} (hbefore : l.isProbing i = false)
    (hafter : (l.move x).isProbing i = true) :
    ∃ c, l.check? x = some c ∧ c.run = i ∧ c.probes = true := by
  obtain ⟨g, n, hm⟩ := isProbing_iff.mp hafter
  cases hr : l.runs[i]? with
  | none => exact absurd (stage_of_begun hr hm) (by simp)
  | some r =>
    have hnot : r.stage ≠ .probing n := by
      intro hs
      have hprobing : l.isProbing i = true := isProbing_iff.mpr ⟨r.generation, n, by rw [hr, ← hs]⟩
      exact Bool.false_ne_true (hbefore.symm.trans hprobing)
    -- the run was there before, so it came to its probes from the stage that it had
    obtain ⟨stage, hm', hleads⟩ := leads_move hr x
    have hstage : stage = .probing n := by
      rw [hm] at hm'
      exact (Run.mk.inj (Option.some.inj hm')).2.symm
    cases hleads with
    | same => exact absurd hstage hnot
    | step v =>
      rcases look_of_nextStage hstage with hs | ⟨timeout, hs⟩
      · exact absurd hs hnot
      · refine ⟨⟨i, v.now, timeout, hasInternetPeer v.remotes, (l.step v i).isProbing i⟩, ?_, rfl,
          hafter⟩
        have hlook : l.runs[i]? = some ⟨r.generation, .look timeout n⟩ := by rw [hr, ← hs]
        rw [check?, hlook]
    | probesEnd => exact Stage.noConfusion hstage
    | callEnds => exact Stage.noConfusion hstage

/-! ## What a loop remembers -/

theorem effect_hadPeers : (l.effect v r).hadPeers =
    match r.stage with
    | .look timeout _ =>
      if hasInternetPeer v.remotes || l.isOverdue v.now timeout then some v.now else l.hadPeers
    | _ => l.hadPeers := by
  obtain ⟨g, stage⟩ := r
  cases stage with
  | look => simp only [effect]; split <;> rfl
  | replace => simp [effect]
  | _ => rfl

/-- Only a check that is noted changes what the loop remembers. -/
theorem hadPeers_move (x : Move) :
    (l.move x).hadPeers = (lastNoted (l.check? x).toList).or l.hadPeers := by
  cases x with
  | command c => simp only [move]; split <;> rfl
  | owner => exact controlStep_hadPeers
  | run i v =>
    cases hr : l.runs[i]? with
    | none => simp [move, step_none hr, check?, hr, lastNoted]
    | some r =>
      obtain ⟨g, stage⟩ := r
      rw [move, step_eq hr, setStage_hadPeers, effect_hadPeers]
      cases stage with
      | look timeout n =>
        have hprobes := isProbing_step_of_look (v := v) hr
        simp only [check?, hr, hprobes, Option.toList_some, lastNoted, Check.isNoted]
        cases hasInternetPeer v.remotes <;> cases l.isOverdue v.now timeout <;> rfl
      | _ => simp [check?, hr, lastNoted]
  | probesEnd i results => exact (agrees_of_isOutside (x := .probesEnd i results) rfl).hadPeers
  | callEnds i => exact (agrees_of_isOutside (x := .callEnds i) rfl).hadPeers
  | fire t => exact (agrees_of_isOutside (x := .fire t) rfl).hadPeers

/-- What a loop remembers is the time of the last check that was taken note of. -/
theorem hadPeers_after (ms : List Move) :
    (l.after ms).hadPeers = (lastNoted (l.checks ms)).or l.hadPeers := by
  induction ms generalizing l with
  | nil => rfl
  | cons x ms ih =>
    rw [after_cons, ih, hadPeers_move, checks, lastNoted_append, Option.or_assoc]

/-- When checks are made in order of time, the last one that was taken note of lies too long ago
exactly if all of them do. -/
theorem isOverdue_iff {cs : List Check} (hlast : l.hadPeers = lastNoted cs)
    (htimes : cs.Pairwise fun d c => d.time ≤ c.time) {now timeout : Duration} :
    l.isOverdue now timeout = true ↔
      ∀ d ∈ cs, d.isNoted = true → d.time.nanos + timeout.nanos < now.nanos := by
  have hnoted : (cs.filter (·.isNoted)).Pairwise fun d c => d.time ≤ c.time := htimes.filter _
  have hmem : ∀ d, d ∈ cs.filter (·.isNoted) ↔ d ∈ cs ∧ d.isNoted = true := by
    intro d
    exact List.mem_filter
  rw [isOverdue, hlast, lastNoted]
  -- only the last noted check is remembered, but no earlier one is later than it
  rcases List.eq_nil_or_concat (cs.filter (·.isNoted)) with hnil | ⟨ds, d, hds⟩
  · rw [hnil] at hmem ⊢
    exact iff_of_true rfl fun d hd hn => absurd ((hmem d).mpr ⟨hd, hn⟩) List.not_mem_nil
  · rw [List.concat_eq_append] at hds
    rw [hds] at hnoted hmem ⊢
    rw [List.getLast?_concat, Option.map_some, decide_eq_true_eq]
    constructor
    · intro hlt c hc hn
      have hle : c.time.nanos ≤ d.time.nanos := by
        rcases List.mem_append.mp ((hmem c).mpr ⟨hc, hn⟩) with hc | hc
        · exact (List.pairwise_append.mp hnoted).2.2 c hc d (List.mem_singleton_self d)
        · exact Nat.le_of_eq (by rw [List.mem_singleton.mp hc])
      omega
    · intro hall
      obtain ⟨hd, hn⟩ := (hmem d).mp (List.mem_append_right ds (List.mem_singleton_self d))
      exact hall d hd hn

/-! ## Runs that have seen a peer -/

end Loop

/-- Whether a run is done with its probes and its call. -/
def Stage.isClosing : Stage → Bool
  | .closing => true
  | .closingGeneration => true
  | .delay => true
  | .arm _ => true
  | .replace _ => true
  | .ended => true
  | _ => false

namespace Loop

variable {l : Loop} {v : View} {i : Nat} {r : Run}

theorem isClosing_nextStage (h : r.stage.isClosing = true) :
    (l.nextStage v r).isClosing = true := by
  obtain ⟨g, stage⟩ := r
  cases stage with
  | closing | closingGeneration => simp only [nextStage]; split <;> rfl
  | delay | arm | replace | ended => rfl
  | _ => exact absurd h Bool.false_ne_true

/-- A run that is done with its probes and its call stays so. -/
theorem isClosing_move (h : l.runs[i]? = some r) (hclosing : r.stage.isClosing = true) (x : Move) :
    ∃ s, (l.move x).runs[i]? = some ⟨r.generation, s⟩ ∧ s.isClosing = true := by
  obtain ⟨s, hs, hleads⟩ := leads_move h x
  refine ⟨s, hs, ?_⟩
  cases hleads with
  | same => exact hclosing
  | step v => exact isClosing_nextStage hclosing
  | probesEnd results hr => exact absurd hclosing (by simp [hr, Stage.isClosing])
  | callEnds hr => exact absurd hclosing (by simp [hr, Stage.isClosing])

theorem isClosing_after (h : l.runs[i]? = some r) (hclosing : r.stage.isClosing = true)
    (ms : List Move) :
    ∃ s, (l.after ms).runs[i]? = some ⟨r.generation, s⟩ ∧ s.isClosing = true :=
  after_induction (P := fun m => ∃ s, m.runs[i]? = some ⟨r.generation, s⟩ ∧ s.isClosing = true)
    ⟨r.stage, h, hclosing⟩ (fun _ x ⟨_, hm, hs⟩ => isClosing_move hm hs x) ms

/-- A run whose check saw an Internet peer neither probes nor calls from then on. -/
theorem quiet_of_seesPeer {x : Move} {c : Check} (h : l.check? x = some c)
    (hsees : c.seesPeer = true) (ms : List Move) :
    ((l.move x).after ms).isProbing c.run = false ∧
      ∀ v, (((l.move x).after ms).step v c.run).calls = ((l.move x).after ms).calls := by
  obtain ⟨v, g, n, rfl, hr, hc⟩ := check?_eq_some h
  have hpeer : hasInternetPeer v.remotes = true := by
    rw [hc] at hsees
    exact hsees
  have hstep : (l.step v c.run).runs[c.run]? = some ⟨g, .closing⟩ := by
    rw [getElem?_step_self hr, nextStage, hpeer]
    rfl
  -- what is closing stays so, and neither probes nor calls are made from there
  obtain ⟨s, hs, hclosing⟩ := isClosing_after (l := l.step v c.run) hstep rfl ms
  constructor
  · rw [move, isProbing, hs]
    cases s with
    | probing => exact absurd hclosing Bool.false_ne_true
    | _ => rfl
  · intro v'
    rw [move, calls_step hs]
    cases s with
    | call => exact absurd hclosing Bool.false_ne_true
    | _ => exact List.append_nil _

/-! ## The law -/

section Law

variable {catalog : List Url} {proxy : Option Proxy} {settings : PeeringSettings}

theorem probes_iff {ms : List Move}
    (htimes : ((fresh catalog proxy settings).checks ms).Pairwise fun d c => d.time ≤ c.time)
    {x : Move} {c : Check} (h : ((fresh catalog proxy settings).after ms).check? x = some c) :
    c.probes = true ↔ c.seesPeer = false ∧
      ∀ d ∈ (fresh catalog proxy settings).checks ms, d.isNoted = true →
        d.time.nanos + c.timeout.nanos < c.time.nanos := by
  have hlast : ((fresh catalog proxy settings).after ms).hadPeers
      = lastNoted ((fresh catalog proxy settings).checks ms) := by
    rw [hadPeers_after]
    exact Option.or_none
  rw [probes_eq h, Bool.and_eq_true, Bool.not_eq_true', isOverdue_iff hlast htimes]

/-- Every round keeps its distance from the earlier rounds and sights of a peer. -/
theorem pairwise_checks {ms : List Move}
    (htimes : ((fresh catalog proxy settings).checks ms).Pairwise fun d c => d.time ≤ c.time) :
    ((fresh catalog proxy settings).checks ms).Pairwise fun d c =>
      d.isNoted = true → c.probes = true → d.time.nanos + c.timeout.nanos < c.time.nanos := by
  induction ms using List.reverseRecOn with
  | nil => exact List.Pairwise.nil
  | append_singleton ms x ih =>
    rw [checks_concat] at htimes ⊢
    -- the last check is judged by what was noted before it
    have hbefore := (List.pairwise_append.mp htimes).1
    refine List.pairwise_append.mpr ⟨ih hbefore, ?_, ?_⟩
    · cases ((fresh catalog proxy settings).after ms).check? x with
      | none => exact List.Pairwise.nil
      | some c => exact List.pairwise_singleton _ c
    · intro d hd c hc hnoted hprobes
      have hc : ((fresh catalog proxy settings).after ms).check? x = some c :=
        Option.mem_toList.mp hc
      exact ((probes_iff hbefore hc).mp hprobes).2 d hd hnoted

end Law

/-- In every history whose checks are made in order of time: a round of probes begins with a check;
the check that comes next begins one exactly if it sees no Internet peer and every earlier one that
saw a peer or began a round lies further back than the time that its run has read; a run whose
check sees an Internet peer neither probes nor calls from then on; and every round keeps its
distance from all earlier rounds and sights of a peer. -/
theorem rounds_apart (catalog : List Url) (proxy : Option Proxy) (settings : PeeringSettings)
    (ms : List Move)
    (htimes : ((fresh catalog proxy settings).checks ms).Pairwise fun d c => d.time ≤ c.time) :
    let l := (fresh catalog proxy settings).after ms
    let cs := (fresh catalog proxy settings).checks ms
    (∀ x i, l.isProbing i = false → (l.move x).isProbing i = true →
      ∃ c, l.check? x = some c ∧ c.run = i ∧ c.probes = true) ∧
    (∀ x c, l.check? x = some c →
      (c.probes = true ↔ c.seesPeer = false ∧
        ∀ d ∈ cs, d.isNoted = true → d.time.nanos + c.timeout.nanos < c.time.nanos) ∧
      (c.seesPeer = true → ∀ ms', let m := (l.move x).after ms'
        m.isProbing c.run = false ∧ ∀ v, (m.step v c.run).calls = m.calls)) ∧
    cs.Pairwise fun d c => d.isNoted = true → c.probes = true →
      d.time.nanos + c.timeout.nanos < c.time.nanos := by
  intro l cs
  refine ⟨fun x i => check?_of_isProbing, fun x c hc => ⟨?_, ?_⟩, pairwise_checks htimes⟩
  · exact probes_iff htimes hc
  · exact fun hsees ms' => quiet_of_seesPeer hc hsees ms'

/-- What a run sees at a time while the node has no peers. -/
def lonely (now : Duration) : View := ⟨now, .zero, [], firstPositions⟩

/-- A round begins at once; then the loop is stopped and started again, and a run of the new
generation comes to its check. -/
def restarting : List Move :=
  .command .start :: List.replicate 4 .owner ++ List.replicate 4 (.run 0 (lonely .zero)) ++
    .command .stop :: List.replicate 3 .owner ++
    .command .start :: List.replicate 4 .owner ++ List.replicate 3 (.run 1 (lonely .zero))

/-- A minute after the round of the generation before, the new run may not begin another, and a
nanosecond later it may. -/
theorem round_after_a_minute :
    let l := (fresh [] none { enable := true }).after restarting
    ((fresh [] none { enable := true }).checks restarting).Pairwise (fun d c => d.time ≤ c.time) ∧
      (∃ c, l.check? (.run 1 (lonely (.ofSecs 60))) = some c ∧ ¬ c.probes = true) ∧
      ∃ c, l.check? (.run 1 (lonely ⟨60000000001⟩)) = some c ∧ c.probes = true := by
  have htimes : ((fresh [] none { enable := true }).checks restarting).Pairwise
      fun d c => d.time ≤ c.time := by decide
  have hlaw := (rounds_apart [] none { enable := true } restarting htimes).2.1
  have hearly : ((fresh [] none { enable := true }).after restarting).check?
      (.run 1 (lonely (.ofSecs 60))) = some ⟨1, .ofSecs 60, .ofSecs 60, false, false⟩ := rfl
  have hlate : ((fresh [] none { enable := true }).after restarting).check?
      (.run 1 (lonely ⟨60000000001⟩)) = some ⟨1, ⟨60000000001⟩, .ofSecs 60, false, true⟩ := rfl
  refine ⟨htimes, ⟨_, hearly, ?_⟩, ⟨_, hlate, ?_⟩⟩
  · exact (hlaw _ _ hearly).1.not.mpr (by decide)
  · exact (hlaw _ _ hlate).1.mpr (by decide)

end Loop

end MeshNode.Peering
