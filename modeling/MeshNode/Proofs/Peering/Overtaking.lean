import Mathlib.Data.List.Induction
import MeshNode.Proofs.Peering.Silence

/-!
# When a loop is lost

Runs, timers and the owner may be interrupted between any two of their steps. A
loop that is on then has a run or a timer that keeps it going, with one exception:
a run that has made its timer and is held up before it puts it in the place of the
one before may be overtaken, by a later run of its own generation or by a whole
stop and start. When it goes on it aborts the timer it finds, and nothing looks at
the peer table any more although the loop is on.

* **what a loop goes through while it is on** — `on_move`;
* **the exact condition** — `timer_waits_iff_not_overtaken`;
* **a schedule that loses the loop** — `overtaking`.
-/

namespace MeshNode.Peering.Loop

variable {l : Loop} {v : View} {i : Nat} {r : Run}

/-! ## While the loop is on -/

/-- Whether the loop is on, and not in the middle of being started. -/
def IsOn (l : Loop) : Prop := l.started = true ∧ l.control.isStarting = false

/-- After a step of the owner the loop is on only if it was on before, and nothing that keeps it
going has changed, or if this step began its first run. -/
theorem isOn_controlStep (h : l.Orderly) (hon : l.controlStep.IsOn) :
    (l.IsOn ∧ l.controlStep.generation = l.generation ∧ l.controlStep.tokens = l.tokens) ∨
      l.control = .spawn l.generation := by
  have hoff : l.control.isStopping = true → l.started = false := h.stopping_off
  unfold controlStep at hon ⊢
  cases hc : l.control with
  | idle =>
    rw [hc] at hon
    exact Or.inl ⟨hon, rfl, rfl⟩
  | readEnable =>
    rw [hc] at hon
    exact Or.inl ⟨⟨hon.1, by rw [hc]; rfl⟩, rfl, rfl⟩
  | markStarted =>
    rw [hc] at hon
    dsimp only at hon ⊢
    split at hon
    · next hstarted =>
      rw [if_pos hstarted]
      exact Or.inl ⟨⟨hstarted, by rw [hc]; rfl⟩, rfl, rfl⟩
    · exact absurd hon.2 (by simp [Control.isStarting])
  | nextGeneration =>
    rw [hc] at hon
    exact absurd hon.2 (by simp [Control.isStarting])
  | spawn g => exact Or.inr (by rw [h.spawn_present g hc])
  -- from here on the owner is stopping the loop, which cannot leave it on
  | markStopped next =>
    rw [hc] at hon
    dsimp only at hon
    split at hon
    · exact absurd hon.1 (by simp)
    · next hstarted => exact absurd hon.1 hstarted
  | retire next | configure settings =>
    rw [hc] at hon hoff
    exact absurd (hon.1.symm.trans (hoff rfl)) (by simp)
  | takePending next =>
    rw [hc] at hon hoff
    have hstarted : (l.abort l.pending).started = true := hon.1
    rw [abort_started] at hstarted
    exact absurd (hstarted.symm.trans (hoff rfl)) (by simp)

/-- The same for every move, where the steps of runs may also take a token away. -/
theorem isOn_move (h : l.Orderly) {x : Move} (hon : (l.move x).IsOn) :
    (l.IsOn ∧ (l.move x).generation = l.generation ∧
      ((∃ i v, x = .run i v) ∨ (l.move x).tokens = l.tokens)) ∨
      (x = .owner ∧ l.control = .spawn l.generation) := by
  cases hx : x.isWork with
  | true =>
    obtain ⟨hstarted, hcontrol, hgeneration⟩ := move_of_isWork (l := l) hx
    refine Or.inl ⟨⟨hstarted ▸ hon.1, hcontrol ▸ hon.2⟩, hgeneration, ?_⟩
    by_cases hrun : ∃ i v, x = .run i v
    · exact Or.inl hrun
    · exact Or.inr (tokens_work hx fun i v he => hrun ⟨i, v, he⟩)
  | false =>
    cases x with
    | command c =>
      refine Or.inl ⟨?_, ?_, Or.inr (tokens_command c)⟩
      · simp only [move] at hon
        split at hon
        · next hc => exact ⟨hon.1, by rw [hc]; rfl⟩
        · exact hon
      · simp only [move]
        split <;> rfl
    | owner =>
      rcases isOn_controlStep h hon with ⟨hl, hg, ht⟩ | hc
      · exact Or.inl ⟨hl, hg, Or.inr ht⟩
      · exact Or.inr ⟨rfl, hc⟩
    | _ => exact absurd hx.symm Bool.false_ne_true

/-! ## Overtaken runs -/

/-- Whether in a history a run has aborted a timer of generation `g` while `g` was the present
generation. -/
def OvertakenIn (l : Loop) (ms : List Move) (g : Nat) : Prop :=
  ∃ ms₁ i v ms₂, ms = ms₁ ++ .run i v :: ms₂ ∧ (l.after ms₁).generation = g ∧
    (l.after ms₁).Overtakes i

theorem overtakenIn_concat {ms : List Move} {x : Move} {g : Nat} :
    l.OvertakenIn (ms ++ [x]) g ↔ l.OvertakenIn ms g ∨
      ∃ i v, x = .run i v ∧ (l.after ms).generation = g ∧ (l.after ms).Overtakes i := by
  constructor
  · rintro ⟨ms₁, i, v, ms₂, heq, hg, hover⟩
    -- the move in question is the last one, or it has a last one after it
    rcases List.eq_nil_or_concat ms₂ with rfl | ⟨ms₂', y, rfl⟩
    · obtain ⟨rfl, hx⟩ := List.append_inj' heq rfl
      exact Or.inr ⟨i, v, List.singleton_inj.mp hx, hg, hover⟩
    · have hcut : ms ++ [x] = (ms₁ ++ .run i v :: ms₂') ++ [y] := by
        rw [heq]
        simp
      obtain ⟨rfl, -⟩ := List.append_inj' hcut rfl
      exact Or.inl ⟨ms₁, i, v, ms₂', rfl, hg, hover⟩
  · rintro (⟨ms₁, i, v, ms₂, rfl, hg, hover⟩ | ⟨i, v, rfl, hg, hover⟩)
    · exact ⟨ms₁, i, v, ms₂ ++ [x], by simp, hg, hover⟩
    · exact ⟨ms, i, v, [], rfl, hg, hover⟩

/-- A generation whose timer was aborted is one that runs or timers belong to. -/
theorem OvertakenIn.mem_generations {ms : List Move} {g : Nat} (h : l.OvertakenIn ms g) :
    g ∈ (l.after ms).generations := by
  obtain ⟨ms₁, i, v, ms₂, rfl, rfl, -, p, x, -, hx, hkeeps⟩ := h
  have hg : x.generation = (l.after ms₁).generation := by
    simp only [Timer.keeps, Bool.and_eq_true, decide_eq_true_eq] at hkeeps
    exact hkeeps.1
  rw [after_append]
  exact mem_generations_after (hg ▸ mem_generations_of_timer hx) _

/-- While the loop is on, its present generation has its token exactly if no run was overtaken
in it. -/
theorem tokens_after (h : l.Orderly) (hfirst : ¬ l.IsOn) (ms : List Move)
    (hon : (l.after ms).IsOn) :
    (l.OvertakenIn ms (l.after ms).generation ∧ (l.after ms).tokens = 0) ∨
      (¬ l.OvertakenIn ms (l.after ms).generation ∧ (l.after ms).tokens = 1) := by
  -- the last move decides: it begins the generation, takes its token, or changes neither
  induction ms using List.reverseRecOn with
  | nil => exact absurd hon hfirst
  | append_singleton ms x ih =>
    have hms : (l.after ms).Orderly := h.after ms
    rw [after_concat] at hon ⊢
    rcases isOn_move hms hon with ⟨hbefore, hg, hcase⟩ | ⟨rfl, hc⟩
    · rw [hg]
      by_cases hlast : ∃ i v, x = .run i v ∧ (l.after ms).Overtakes i
      · -- the step takes the token away, so it was there
        obtain ⟨i, v, rfl, hover⟩ := hlast
        have htokens : ((l.after ms).move (.run i v)).tokens + 1 = (l.after ms).tokens :=
          tokens_step_of_overtakes hover
        have hone := hms.single
        exact Or.inl ⟨overtakenIn_concat.mpr (Or.inr ⟨i, v, rfl, rfl, hover⟩), by omega⟩
      · have htokens : ((l.after ms).move x).tokens = (l.after ms).tokens := by
          rcases hcase with ⟨i, v, rfl⟩ | htokens
          · exact tokens_step hbefore.1 fun hover => hlast ⟨i, v, rfl, hover⟩
          · exact htokens
        have hsame : l.OvertakenIn (ms ++ [x]) (l.after ms).generation ↔
            l.OvertakenIn ms (l.after ms).generation := by
          rw [overtakenIn_concat]
          exact or_iff_left fun ⟨i, v, hx, _, hover⟩ => hlast ⟨i, v, hx, hover⟩
        rw [hsame, htokens]
        exact ih hbefore
    · -- the owner begins the first run of a generation that no timer belongs to
      have hvacant : (l.after ms).generation ∉ (l.after ms).generations :=
        hms.starting_vacant (by rw [hc]; rfl)
      have hsame : ((l.after ms).move .owner).generation = (l.after ms).generation := by
        rw [move, controlStep_generation, hc]
        rfl
      refine Or.inr ⟨?_, tokens_spawn hms hc⟩
      rw [hsame, overtakenIn_concat]
      rintro (hover | ⟨i, v, hx, -⟩)
      · exact hvacant hover.mem_generations
      · exact Move.noConfusion hx

/-! ## The condition -/

/-- When no run of the present generation is left, its waiting timers are its tokens. -/
theorem tokens_eq_waitingTimers (h : l.liveRuns = 0) : l.tokens = l.waitingTimers := by
  have hruns : l.runs.countP (·.keeps l.generation) = 0 := by
    rw [liveRuns, List.countP_eq_zero] at h
    rw [List.countP_eq_zero]
    intro r hr
    have hr' := h r hr
    cases hs : r.stage <;> simp_all [Run.keeps, Stage.owesTimer]
  rw [tokens, hruns, Nat.zero_add]
  exact List.countP_congr fun t _ => by simp [Timer.keeps]

/-- A loop that is on, not in the middle of being started, and whose present generation has no
run left, has a timer of that generation that is still to fire, unless a run that put its timer
in the place of another aborted one of that generation. -/
theorem timer_waits_iff_not_overtaken (catalog : List Url) (proxy : Option Proxy)
    (settings : PeeringSettings) (ms : List Move) :
    let l := (fresh catalog proxy settings).after ms
    l.started = true → l.control.isStarting = false → l.liveRuns = 0 →
      (0 < l.waitingTimers ↔ ¬ (fresh catalog proxy settings).OvertakenIn ms l.generation) := by
  intro l hstarted hcontrol hlive
  have hfirst : ¬ (fresh catalog proxy settings).IsOn := fun h => Bool.false_ne_true h.1
  have htokens := tokens_after (orderly_fresh catalog proxy settings) hfirst ms
    ⟨hstarted, hcontrol⟩
  rw [← tokens_eq_waitingTimers hlive]
  rcases htokens with ⟨hover, hzero⟩ | ⟨hnot, hone⟩
  · exact iff_of_false (by rw [hzero]; exact Nat.lt_irrefl 0) (not_not_intro hover)
  · exact iff_of_true (by rw [hone]; exact Nat.one_pos) hnot

/-- What a run sees while the node has an Internet peer, so that it ends without probes. -/
def connected : View := ⟨.zero, .zero, ["tcp://198.51.100.2:4000"], firstPositions⟩

/-- A run that ends without interruption leaves its timer waiting. -/
theorem timer_waits_after_first_run :
    let ms := .command .start :: List.replicate 4 .owner ++ List.replicate 9 (.run 0 connected)
    let l := (fresh [] none { enable := true }).after ms
    l.started = true ∧ l.control.isStarting = false ∧ l.liveRuns = 0 ∧ l.waitingTimers = 1 ∧
      ¬ (fresh [] none { enable := true }).OvertakenIn ms l.generation := by
  refine ⟨rfl, rfl, rfl, rfl, ?_⟩
  exact (timer_waits_iff_not_overtaken [] none { enable := true } _ rfl rfl rfl).mp Nat.one_pos

/-- The first run is held up when it has made its timer. The owner stops the loop and starts it
again, the run of the new generation ends and leaves its timer, and then the first run goes on. -/
def overtaking : List Move :=
  .command .start :: List.replicate 4 .owner ++ List.replicate 8 (.run 0 connected) ++
    .command .stop :: List.replicate 3 .owner ++
    .command .start :: List.replicate 4 .owner ++ List.replicate 9 (.run 1 connected) ++
    [.run 0 connected]

/-- The loop is on, its owner is idle, all its runs have ended, and no timer of its generation is
still to fire. -/
theorem timer_lost_to_older_run :
    let l := (fresh [] none { enable := true }).after overtaking
    l.started = true ∧ l.control = .idle ∧ (∀ r ∈ l.runs, r.stage = .ended) ∧
      l.waitingTimers = 0 := by
  refine ⟨rfl, rfl, ?_, rfl⟩
  decide

end MeshNode.Peering.Loop
