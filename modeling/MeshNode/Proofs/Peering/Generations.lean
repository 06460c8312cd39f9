import MeshNode.Proofs.Peering.Moves

/-!
# What keeps a generation going

A generation goes on as long as one of its runs has yet to make a timer or one of
its timers has yet to fire: these are the tokens of the generation. In every
history the present generation has at most one.

* **one step of a run** — `tokens_step` and `tokens_step_of_overtakes`: a run
  hands its token on to its timer, and the only step that loses a token is the
  one with which a run puts its timer in the place of a timer of the present
  generation that is still to fire;
* **one move** — `Orderly.move`: besides the count, no run or timer belongs to a
  generation that is still to come, and none to the present one while the loop is
  off;
* **a history** — `Orderly.after`.
-/

namespace MeshNode.Peering

/-! ## Tokens -/

/-- Whether a run at this stage has yet to make a timer, or to end without one. -/
def Stage.owesTimer : Stage → Bool
  | .replace _ => false
  | .ended => false
  | _ => true

/-- Whether a run keeps a generation going. -/
def Run.keeps (g : Nat) (r : Run) : Bool := decide (r.generation = g) && r.stage.owesTimer

/-- Whether a timer keeps a generation going. -/
def Timer.keeps (g : Nat) (t : Timer) : Bool :=
  decide (t.generation = g) && decide (t.status = .waiting)

theorem Run.keeps_of_ne {g : Nat} {r : Run} (h : r.generation ≠ g) : r.keeps g = false := by
  simp [keeps, h]

theorem Timer.keeps_of_ne {g : Nat} {t : Timer} (h : t.generation ≠ g) : t.keeps g = false := by
  simp [keeps, h]

/-- Changing one element changes a count by that element alone. -/
theorem countP_modify {α : Type} {p : α → Bool} {f : α → α} {as : List α} {i : Nat} {a : α}
    (h : as[i]? = some a) :
    (as.modify i f).countP p + (p a).toNat = as.countP p + (p (f a)).toNat := by
  induction as generalizing i with
  | nil => simp at h
  | cons b as ih =>
    cases i with
    | zero =>
      have hb : b = a := by simpa using h
      subst hb
      cases hp : p b <;> cases hf : p (f b) <;> simp [hp, hf]
    | succ i =>
      have hi : as[i]? = some a := by simpa using h
      have hih := ih hi
      rw [List.modify_succ_cons, List.countP_cons, List.countP_cons]
      omega

namespace Loop

variable {l : Loop} {v : View} {i : Nat} {r : Run}

/-- The runs and timers that keep the present generation going. -/
def tokens (l : Loop) : Nat :=
  l.runs.countP (·.keeps l.generation) + l.timers.countP (·.keeps l.generation)

/-- Whether the timer that stopping would abort belongs to the present generation and is
still to fire. -/
def PendingWaits (l : Loop) : Prop :=
  ∃ p x, l.pending = some p ∧ l.timers[p]? = some x ∧ x.keeps l.generation = true

/-- Whether the next step of a run aborts a timer of the present generation. -/
def Overtakes (l : Loop) (i : Nat) : Prop :=
  (∃ g t, l.runs[i]? = some ⟨g, .replace t⟩) ∧ l.PendingWaits

/-- Aborting a timer takes away one token if it was one. -/
theorem countP_abort {p : Nat} {x : Timer} (h : l.timers[p]? = some x) (g : Nat) :
    (l.abort (some p)).timers.countP (·.keeps g) + (x.keeps g).toNat
      = l.timers.countP (·.keeps g) := by
  have hgone : ((if x.status = .waiting then { x with status := .aborted } else x).keeps g)
      = false := by
    split <;> simp_all [Timer.keeps]
  have hcount := countP_modify (p := (·.keeps g))
    (f := fun x : Timer => if x.status = .waiting then { x with status := .aborted } else x) h
  simpa [abort, hgone] using hcount

theorem abort_timers_of_none {p : Nat} (h : l.timers[p]? = none) :
    (l.abort (some p)).timers = l.timers :=
  List.modify_eq_self (List.getElem?_eq_none_iff.mp h)

theorem countP_abort_le (p : Option Nat) (g : Nat) :
    (l.abort p).timers.countP (·.keeps g) ≤ l.timers.countP (·.keeps g) := by
  cases p with
  | none => exact Nat.le_refl _
  | some p =>
    cases hx : l.timers[p]? with
    | none => exact Nat.le_of_eq (by rw [abort_timers_of_none hx])
    | some x => rw [← countP_abort hx g]; exact Nat.le_add_right _ _

theorem countP_abort_pending (h : ¬ l.PendingWaits) :
    (l.abort l.pending).timers.countP (·.keeps l.generation)
      = l.timers.countP (·.keeps l.generation) := by
  cases hp : l.pending with
  | none => rfl
  | some p =>
    cases hx : l.timers[p]? with
    | none => rw [abort_timers_of_none hx]
    | some x =>
      have hkeeps : x.keeps l.generation = false := by
        rw [← Bool.not_eq_true]
        exact fun hk => h ⟨p, x, hp, hx, hk⟩
      have hcount := countP_abort hx l.generation
      simpa [hkeeps] using hcount

/-! ## One step of a run -/

/-- The tokens after a step, from what the step does to its run and to the timers. -/
theorem tokens_step_add (h : l.runs[i]? = some r) :
    (l.step v i).tokens + (r.keeps l.generation).toNat +
        l.timers.countP (·.keeps l.generation) =
      l.tokens + ((⟨r.generation, l.nextStage v r⟩ : Run).keeps l.generation).toNat +
        (l.effect v r).timers.countP (·.keeps l.generation) := by
  have hcount := countP_modify (p := (·.keeps l.generation))
    (f := fun x => { x with stage := l.nextStage v r }) h
  rw [tokens, tokens, step_generation, step_eq h, setStage_runs, effect_runs, setStage_timers]
  omega

/-- What a step of a run does to the timers, by the stage of the run. -/
theorem effect_timers : (l.effect v r).timers =
    match r.stage with
    | .arm delay =>
      l.timers ++ [⟨r.generation, ⟨v.clock.nanos + (timerDelay delay).nanos⟩, .waiting⟩]
    | .replace _ => (l.abort l.pending).timers
    | _ => l.timers := by
  obtain ⟨generation, stage⟩ := r
  cases stage with
  | look => simp only [effect]; split <;> rfl
  | _ => rfl

/-- A step gives no token to a run that had none. -/
theorem keeps_of_keeps_nextStage
    (h : (⟨r.generation, l.nextStage v r⟩ : Run).keeps l.generation = true) :
    r.keeps l.generation = true := by
  obtain ⟨generation, stage⟩ := r
  cases stage with
  | replace | ended => simp [Run.keeps, nextStage, Stage.owesTimer] at h
  | _ =>
    -- at every other stage the run had its token by its generation alone
    simp only [Run.keeps, Bool.and_eq_true] at h ⊢
    exact ⟨h.1, rfl⟩

/-- While the loop is on, a run of the present generation keeps its token until it makes its
timer. -/
theorem keeps_nextStage (hon : l.started = true) (harm : ∀ d, r.stage ≠ .arm d) :
    (⟨r.generation, l.nextStage v r⟩ : Run).keeps l.generation = r.keeps l.generation := by
  by_cases hg : r.generation = l.generation
  · obtain ⟨generation, stage⟩ := r
    dsimp only at hg
    subst hg
    cases stage with
    | arm d => exact absurd rfl (harm d)
    | look timeout candidates =>
      simp only [nextStage, Run.keeps]
      split
      · rfl
      · split <;> rfl
    | resumedGeneration closest =>
      simp only [nextStage, Run.keeps, if_true]
      split <;> rfl
    | _ => simp [nextStage, Run.keeps, Stage.owesTimer, hon]
  · have hnext : (⟨r.generation, l.nextStage v r⟩ : Run).generation ≠ l.generation := hg
    rw [Run.keeps_of_ne hnext, Run.keeps_of_ne hg]

/-- A run that makes its timer hands its token on to it. -/
theorem tokens_step_of_arm {g : Nat} {d : Duration} (h : l.runs[i]? = some ⟨g, .arm d⟩) :
    (l.step v i).tokens = l.tokens := by
  have hadd := tokens_step_add (v := v) h
  have hbefore : (⟨g, .arm d⟩ : Run).keeps l.generation = decide (g = l.generation) :=
    Bool.and_true _
  have hafter : (⟨g, l.nextStage v ⟨g, .arm d⟩⟩ : Run).keeps l.generation = false :=
    Bool.and_false _
  have htimer : ∀ due, (⟨g, due, .waiting⟩ : Timer).keeps l.generation
      = decide (g = l.generation) := fun _ => Bool.and_true _
  rw [hbefore, hafter] at hadd
  simp only [effect_timers, List.countP_append, List.countP_singleton, htimer] at hadd
  by_cases hg : g = l.generation
  · simp only [hg, decide_true, Bool.toNat_true, Bool.toNat_false, if_true] at hadd
    omega
  · simp only [hg, decide_false, Bool.toNat_false, Bool.false_eq_true, if_false] at hadd
    omega

/-- A step of a run never adds to the tokens. -/
theorem tokens_step_le : (l.step v i).tokens ≤ l.tokens := by
  cases h : l.runs[i]? with
  | none => exact Nat.le_of_eq (by rw [step_none h])
  | some r =>
    by_cases harm : ∃ d, r.stage = .arm d
    · obtain ⟨d, hd⟩ := harm
      exact Nat.le_of_eq (tokens_step_of_arm (g := r.generation) (by rw [h, ← hd]))
    · have hadd := tokens_step_add (v := v) h
      have htimers : (l.effect v r).timers.countP (·.keeps l.generation)
          ≤ l.timers.countP (·.keeps l.generation) := by
        rw [effect_timers]
        split
        · next d hd => exact absurd ⟨d, hd⟩ harm
        · exact countP_abort_le _ _
        · exact Nat.le_refl _
      have hrun : ((⟨r.generation, l.nextStage v r⟩ : Run).keeps l.generation).toNat
          ≤ (r.keeps l.generation).toNat := by
        cases hn : (⟨r.generation, l.nextStage v r⟩ : Run).keeps l.generation with
        | false => exact Nat.zero_le _
        | true => exact Nat.le_of_eq (by rw [keeps_of_keeps_nextStage hn])
      omega

/-- While the loop is on, a step of a run that aborts no timer of the present generation keeps
the tokens. -/
theorem tokens_step (hon : l.started = true) (hnot : ¬ l.Overtakes i) :
    (l.step v i).tokens = l.tokens := by
  cases h : l.runs[i]? with
  | none => rw [step_none h]
  | some r =>
    by_cases harm : ∃ d, r.stage = .arm d
    · obtain ⟨d, hd⟩ := harm
      exact tokens_step_of_arm (g := r.generation) (by rw [h, ← hd])
    · have hadd := tokens_step_add (v := v) h
      have hrun := keeps_nextStage (v := v) hon (r := r) fun d hd => harm ⟨d, hd⟩
      have htimers : (l.effect v r).timers.countP (·.keeps l.generation)
          = l.timers.countP (·.keeps l.generation) := by
        rw [effect_timers]
        split
        · next d hd => exact absurd ⟨d, hd⟩ harm
        · next t ht =>
          exact countP_abort_pending fun hp => hnot ⟨⟨r.generation, t, by rw [h, ← ht]⟩, hp⟩
        · rfl
      rw [hrun, htimers] at hadd
      omega

/-- A run that puts its timer in the place of one that is still to fire takes a token away. -/
theorem tokens_step_of_overtakes (h : l.Overtakes i) : (l.step v i).tokens + 1 = l.tokens := by
  obtain ⟨⟨g, t, hr⟩, p, x, hp, hx, hkeeps⟩ := h
  have hadd := tokens_step_add (v := v) hr
  have habort := countP_abort hx l.generation
  have hbefore : (⟨g, .replace t⟩ : Run).keeps l.generation = false := Bool.and_false _
  have hafter : (⟨g, l.nextStage v ⟨g, .replace t⟩⟩ : Run).keeps l.generation = false :=
    Bool.and_false _
  rw [hbefore, hafter] at hadd
  rw [hkeeps, Bool.toNat_true] at habort
  simp only [effect_timers, hp] at hadd
  omega

/-! ## Other moves -/

@[simp] theorem tokens_command (c : Command) : (l.move (.command c)).tokens = l.tokens := by
  simp only [move]
  split <;> rfl

/-- A stage that a run waits in and the stage after it both leave the run its token. -/
theorem tokens_setStage (h : l.runs[i]? = some r) {stage : Stage}
    (hbefore : r.stage.owesTimer = true) (hafter : stage.owesTimer = true) :
    (l.setStage i stage).tokens = l.tokens := by
  have hcount := countP_modify (p := (·.keeps l.generation)) (f := fun x => { x with stage }) h
  have hsame : (⟨r.generation, stage⟩ : Run).keeps l.generation = r.keeps l.generation := by
    simp [Run.keeps, hbefore, hafter]
  rw [hsame] at hcount
  rw [tokens, tokens, setStage_generation, setStage_runs, setStage_timers]
  omega

@[simp] theorem tokens_probesEnd (results : List ProbeResult) :
    (l.probesEnd i results).tokens = l.tokens := by
  rcases l.probesEnd_eq (i := i) results with h | ⟨g, n, hr, h⟩ <;> rw [h]
  exact tokens_setStage hr rfl rfl

@[simp] theorem tokens_callEnds : (l.callEnds i).tokens = l.tokens := by
  rcases l.callEnds_eq (i := i) with h | ⟨g, uri, hr, h⟩ <;> rw [h]
  exact tokens_setStage hr rfl rfl

/-- A timer that fires hands its token on to the run that it begins. -/
@[simp] theorem tokens_fire (t : Nat) : (l.fire t).tokens = l.tokens := by
  rcases l.fire_eq t with h | ⟨g, d, ht, h⟩
  · rw [h]
  · have hcount := countP_modify (p := (·.keeps l.generation))
      (f := fun x => { x with status := .fired }) ht
    have hbefore : (⟨g, d, .waiting⟩ : Timer).keeps l.generation = decide (g = l.generation) :=
      Bool.and_true _
    have hafter : (⟨g, d, .fired⟩ : Timer).keeps l.generation = false := Bool.and_false _
    have hrun : (⟨g, .entry⟩ : Run).keeps l.generation = decide (g = l.generation) :=
      Bool.and_true _
    rw [hbefore, hafter] at hcount
    rw [h, tokens, tokens, List.countP_append, List.countP_singleton, hrun]
    by_cases hg : g = l.generation
    · simp only [hg, decide_true, Bool.toNat_true, Bool.toNat_false, if_true] at hcount ⊢
      omega
    · simp only [hg, decide_false, Bool.toNat_false, Bool.false_eq_true, if_false] at hcount ⊢
      omega

/-- Apart from the steps of runs, what runs and timers do keeps the tokens. -/
theorem tokens_work {x : Move} (h : x.isWork = true) (hrun : ∀ i v, x ≠ .run i v) :
    (l.move x).tokens = l.tokens := by
  cases x with
  | command | owner => exact absurd h Bool.false_ne_true
  | run i v => exact absurd rfl (hrun i v)
  | probesEnd i results => exact tokens_probesEnd results
  | callEnds i => exact tokens_callEnds
  | fire t => exact tokens_fire t

theorem tokens_work_le {x : Move} (h : x.isWork = true) : (l.move x).tokens ≤ l.tokens := by
  cases x with
  | run i v => exact tokens_step_le
  | _ => exact Nat.le_of_eq (tokens_work h (by simp))

/-- A generation that no run and no timer belongs to has no tokens. -/
theorem tokens_eq_zero (h : l.generation ∉ l.generations) : l.tokens = 0 := by
  have hruns : l.runs.countP (·.keeps l.generation) = 0 := by
    rw [List.countP_eq_zero]
    intro r hr
    have hne : r.generation ≠ l.generation := by
      intro he
      exact h (he ▸ List.mem_append_left _ (List.mem_map_of_mem hr))
    simp [Run.keeps_of_ne hne]
  have htimers : l.timers.countP (·.keeps l.generation) = 0 := by
    rw [List.countP_eq_zero]
    intro t ht
    have hne : t.generation ≠ l.generation := by
      intro he
      exact h (he ▸ List.mem_append_right _ (List.mem_map_of_mem ht))
    simp [Timer.keeps_of_ne hne]
  rw [tokens, hruns, htimers]

/-! ## The invariant -/

end Loop

/-- Whether the owner has marked the loop as on and has yet to begin its first run. -/
def Control.isStarting : Control → Bool
  | .nextGeneration => true
  | .spawn _ => true
  | _ => false

/-- Whether the owner has marked the loop as off and has yet to begin a generation. -/
def Control.isRetiring : Control → Bool
  | .retire _ => true
  | _ => false

/-- Whether the owner has stopped the loop and is not done with it. -/
def Control.isStopping : Control → Bool
  | .retire _ => true
  | .takePending _ => true
  | .configure _ => true
  | _ => false

/-- What every move of a loop keeps. -/
structure Loop.Orderly (l : Loop) : Prop where
  bounded : ∀ g ∈ l.generations, g ≤ l.generation
  single : l.tokens ≤ 1
  off_vacant : l.started = false → l.control.isRetiring = false → l.generation ∉ l.generations
  starting_vacant : l.control.isStarting = true → l.generation ∉ l.generations
  starting_on : l.control.isStarting = true → l.started = true
  stopping_off : l.control.isStopping = true → l.started = false
  spawn_present : ∀ g, l.control = .spawn g → g = l.generation

namespace Loop

theorem orderly_fresh (catalog : List Url) (proxy : Option Proxy) (settings : PeeringSettings) :
    (fresh catalog proxy settings).Orderly where
  bounded _ h := absurd h List.not_mem_nil
  single := Nat.zero_le 1
  off_vacant _ _ := List.not_mem_nil
  starting_vacant _ := List.not_mem_nil
  starting_on h := absurd h Bool.false_ne_true
  stopping_off _ := rfl
  spawn_present _ h := absurd h (by simp [fresh])

variable {l : Loop} {v : View} {i : Nat}

/-- What changes neither the owner's stage nor the generations keeps the invariant if it adds no
token. -/
theorem Orderly.of_same {m : Loop} (h : l.Orderly) (hgeneration : m.generation = l.generation)
    (hstarted : m.started = l.started) (hcontrol : m.control = l.control)
    (hmem : ∀ g, g ∈ m.generations ↔ g ∈ l.generations) (htokens : m.tokens ≤ l.tokens) :
    m.Orderly where
  bounded g hg := hgeneration ▸ h.bounded g ((hmem g).mp hg)
  single := Nat.le_trans htokens h.single
  off_vacant hoff hret := by
    rw [hgeneration, hmem]
    exact h.off_vacant (hstarted ▸ hoff) (hcontrol ▸ hret)
  starting_vacant hs := by
    rw [hgeneration, hmem]
    exact h.starting_vacant (hcontrol ▸ hs)
  starting_on hs := hstarted ▸ h.starting_on (hcontrol ▸ hs)
  stopping_off hs := hstarted ▸ h.stopping_off (hcontrol ▸ hs)
  spawn_present g hg := hgeneration ▸ h.spawn_present g (hcontrol ▸ hg)

/-- What changes only where the owner stands, and leads into no start, keeps the invariant. -/
theorem Orderly.withControl (h : l.Orderly) {c : Control} (hstart : c.isStarting = false)
    (hret : l.control.isRetiring = false) (hstop : c.isStopping = true → l.started = false) :
    ({ l with control := c } : Loop).Orderly where
  bounded := h.bounded
  single := h.single
  off_vacant hoff _ := h.off_vacant hoff hret
  starting_vacant hs := absurd (hstart.symm.trans hs) Bool.false_ne_true
  starting_on hs := absurd (hstart.symm.trans hs) Bool.false_ne_true
  stopping_off := hstop
  spawn_present g hg := by
    dsimp only at hg
    subst hg
    exact absurd hstart (by simp [Control.isStarting])

/-- A generation that is just begun has neither runs nor timers. -/
theorem Orderly.nextGeneration (h : l.Orderly) {c : Control}
    (hon : c.isStarting = true → l.started = true) (hoff : c.isStopping = true → l.started = false)
    (hspawn : ∀ g, c = .spawn g → g = l.generation + 1) :
    ({ l with generation := l.generation + 1, control := c } : Loop).Orderly := by
  have hnext : l.generation + 1 ∉ l.generations :=
    fun hmem => Nat.not_succ_le_self _ (h.bounded _ hmem)
  exact
    { bounded := fun g hg => Nat.le_succ_of_le (h.bounded g hg)
      single := Nat.le_trans (Nat.le_of_eq (tokens_eq_zero hnext)) (Nat.zero_le 1)
      off_vacant := fun _ _ => hnext
      starting_vacant := fun _ => hnext
      starting_on := hon
      stopping_off := hoff
      spawn_present := hspawn }

/-- The first run of a generation is its only token. -/
theorem tokens_spawn (h : l.Orderly) (hc : l.control = .spawn l.generation) :
    l.controlStep.tokens = 1 := by
  have hzero : l.tokens = 0 := tokens_eq_zero (h.starting_vacant (by rw [hc]; rfl))
  have hrun : (⟨l.generation, .entry⟩ : Run).keeps l.generation = true := by
    simp [Run.keeps, Stage.owesTimer]
  have hgeneration : l.controlStep.generation = l.generation := by
    rw [controlStep_generation, hc]
    rfl
  rw [tokens] at hzero
  rw [tokens, hgeneration, controlStep_runs, controlStep_timers, hc, Control.spawned,
    List.countP_append, List.countP_singleton, if_pos hrun]
  simp only [Control.isAborting, Bool.false_eq_true, if_false]
  omega

theorem afterStop_isStarting (next : Option PeeringSettings) :
    (afterStop next).isStarting = false := by
  cases next <;> rfl

/-- A loop that is off and not about to be retired can be marked as started. -/
theorem Orderly.markStarted (h : l.Orderly) (hoff : l.started = false)
    (hret : l.control.isRetiring = false) :
    ({ l with started := true, control := .nextGeneration } : Loop).Orderly where
  bounded := h.bounded
  single := h.single
  off_vacant hf := absurd hf.symm Bool.false_ne_true
  -- the generation that is left has neither runs nor timers
  starting_vacant _ := h.off_vacant hoff hret
  starting_on _ := rfl
  stopping_off hs := absurd hs Bool.false_ne_true
  spawn_present _ hg := Control.noConfusion hg

/-- A loop can be marked as stopped at any time, and must be retired then. -/
theorem Orderly.markStopped (h : l.Orderly) (next : Option PeeringSettings) :
    ({ l with started := false, control := .retire next } : Loop).Orderly where
  bounded := h.bounded
  single := h.single
  off_vacant _ hr := absurd hr.symm Bool.false_ne_true
  starting_vacant hs := absurd hs Bool.false_ne_true
  starting_on hs := absurd hs Bool.false_ne_true
  stopping_off _ := rfl
  spawn_present _ hg := Control.noConfusion hg

/-- The first run of a generation can be spawned. -/
theorem Orderly.spawn (h : l.Orderly) (hc : l.control = .spawn l.generation) :
    l.controlStep.Orderly := by
  have hon : l.started = true := h.starting_on (by rw [hc]; rfl)
  have hone : l.controlStep.tokens = 1 := tokens_spawn h hc
  have hbounded : ∀ g ∈ l.controlStep.generations, g ≤ l.generation := by
    intro g hg
    rcases mem_generations_controlStep.mp hg with hg | hg
    · exact h.bounded g hg
    · exact Nat.le_of_eq (Control.spawn.inj (hc.symm.trans hg)).symm
  rw [Loop.controlStep, hc] at hone hbounded ⊢
  exact
    { bounded := hbounded
      single := Nat.le_of_eq hone
      off_vacant := fun hf => absurd (hf.symm.trans hon) Bool.false_ne_true
      starting_vacant := fun hs => absurd hs Bool.false_ne_true
      starting_on := fun hs => absurd hs Bool.false_ne_true
      stopping_off := fun hs => absurd hs Bool.false_ne_true
      spawn_present := fun g hg => Control.noConfusion hg }

/-- The pending timer can be taken and aborted at any time. -/
theorem Orderly.takePending (h : l.Orderly) :
    ({ l.abort l.pending with pending := none } : Loop).Orderly := by
  refine h.of_same (abort_generation _) (abort_started _) (abort_control _) (fun g => ?_) ?_
  · show g ∈ (l.abort l.pending).generations ↔ g ∈ l.generations
    rw [abort_generations]
  · show (l.abort l.pending).tokens ≤ l.tokens
    rw [tokens, tokens, abort_generation, abort_runs]
    exact Nat.add_le_add_left (countP_abort_le _ _) _

theorem Orderly.controlStep (h : l.Orderly) : l.controlStep.Orderly := by
  cases hc : l.control with
  | idle => rw [Loop.controlStep, hc]; exact h
  | readEnable =>
    rw [Loop.controlStep, hc]
    refine h.withControl ?_ (by rw [hc]; rfl) ?_ <;> split <;>
      simp [Control.isStarting, Control.isStopping]
  | markStarted =>
    rw [Loop.controlStep, hc]
    dsimp only
    split
    · exact h.withControl rfl (by rw [hc]; rfl) (fun hs => absurd hs Bool.false_ne_true)
    · next hon => exact h.markStarted (Bool.eq_false_iff.mpr hon) (by rw [hc]; rfl)
  | nextGeneration =>
    rw [Loop.controlStep, hc]
    exact h.nextGeneration (fun _ => h.starting_on (by rw [hc]; rfl))
      (fun hs => absurd hs Bool.false_ne_true) (fun g hg => (Control.spawn.inj hg).symm)
  | spawn g =>
    have hg : g = l.generation := h.spawn_present g hc
    exact h.spawn (hg ▸ hc)
  | markStopped next =>
    rw [Loop.controlStep, hc]
    dsimp only
    split
    · exact h.markStopped next
    · next hon =>
      exact h.withControl (afterStop_isStarting next) (by rw [hc]; rfl)
        (fun _ => Bool.eq_false_iff.mpr hon)
  | retire next =>
    rw [Loop.controlStep, hc]
    exact h.nextGeneration (fun hs => absurd hs Bool.false_ne_true)
      (fun _ => h.stopping_off (by rw [hc]; rfl)) (fun g hg => Control.noConfusion hg)
  | takePending next =>
    rw [Loop.controlStep, hc]
    have hoff : l.started = false := h.stopping_off (by rw [hc]; rfl)
    exact h.takePending.withControl (afterStop_isStarting next) (by simp [hc, Control.isRetiring])
      (fun _ => by simp [hoff])
  | configure settings =>
    rw [Loop.controlStep, hc]
    have hsettings : ({ l with settings } : Loop).Orderly :=
      h.of_same rfl rfl rfl (fun _ => Iff.rfl) (Nat.le_refl _)
    exact hsettings.withControl rfl (by simp [hc, Control.isRetiring])
      (fun hs => absurd hs Bool.false_ne_true)

/-- Every move keeps the invariant. -/
theorem Orderly.move (h : l.Orderly) (x : Move) : (l.move x).Orderly := by
  cases hx : x.isWork with
  | true =>
    obtain ⟨hstarted, hcontrol, hgeneration⟩ := move_of_isWork (l := l) hx
    refine h.of_same hgeneration hstarted hcontrol (fun g => ?_) (tokens_work_le hx)
    rw [mem_generations_move]
    refine or_iff_left fun hc => ?_
    rw [hc.1] at hx
    exact Bool.false_ne_true hx
  | false =>
    cases x with
    | command c =>
      simp only [Loop.move]
      split
      · next hc =>
        refine h.withControl ?_ (by rw [hc]; rfl) ?_ <;>
          cases c <;> simp [Command.entry, Control.isStarting, Control.isStopping]
      · exact h
    | owner => exact h.controlStep
    | _ => exact absurd hx.symm Bool.false_ne_true

/-- The invariant holds after every history. -/
theorem Orderly.after (h : l.Orderly) (ms : List Move) : (l.after ms).Orderly :=
  after_induction h (fun _ x hm => hm.move x) ms

end Loop

end MeshNode.Peering
