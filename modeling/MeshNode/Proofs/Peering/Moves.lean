import MeshNode.Peering.Loop
import MeshNode.Proofs.Records

/-!
# The moves of a peering loop

The runs of a loop, its owner and its timers share the loop, and any of them may
go on at any time. A move is what one of them does without interruption, and a
history is a list of moves in any order.

* **one step of a run** — `step_eq`: a step changes what is shared by `effect`
  and the stage of its own run to `nextStage`, and nothing else;
* **what lasts** — `leads_move`, `generation_le_move`, `mem_generations_move`:
  runs and timers are never taken away and keep their generation, and
  generations are counted upwards.
-/

namespace MeshNode.Peering

/-! ## Moves -/

/-- What the owner of a loop can do with it. -/
inductive Command
  | start
  | stop
  | update (settings : PeeringSettings)
deriving DecidableEq

/-- Where the owner stands when it has just taken up a command. -/
def Command.entry : Command → Control
  | .start => .readEnable
  | .stop => .markStopped none
  | .update settings => .markStopped (some settings)

/-- Something that nothing can interrupt. -/
inductive Move
  /-- The owner, if idle, takes up a command, -/
  | command (c : Command)
  /-- or takes one step of the command at hand. -/
  | owner
  /-- A run takes a step. -/
  | run (i : Nat) (v : View)
  | probesEnd (i : Nat) (results : List ProbeResult)
  | callEnds (i : Nat)
  | fire (t : Nat)

/-- Whether a step of the owner counts a generation. -/
def Control.isCounting : Control → Bool
  | .nextGeneration => true
  | .retire _ => true
  | _ => false

/-- Whether a step of the owner aborts a timer. -/
def Control.isAborting : Control → Bool
  | .takePending _ => true
  | _ => false

/-- The runs that a step of the owner begins. -/
def Control.spawned : Control → List Run
  | .spawn g => [⟨g, .entry⟩]
  | _ => []

/-- Whether a move is one of a run or a timer. -/
def Move.isWork : Move → Bool
  | .command _ => false
  | .owner => false
  | _ => true

/-- Whether a move comes from what a run or a timer waits for. -/
def Move.isOutside : Move → Bool
  | .probesEnd _ _ => true
  | .callEnds _ => true
  | .fire _ => true
  | _ => false

namespace Loop

/-- The loop as it is set up. -/
def fresh (catalog : List Url) (proxy : Option Proxy) (settings : PeeringSettings) : Loop :=
  { catalog, proxy, settings }

/-- The loop after a move. -/
def move (l : Loop) : Move → Loop
  | .command c => if l.control = .idle then { l with control := c.entry } else l
  | .owner => l.controlStep
  | .run i v => l.step v i
  | .probesEnd i results => l.probesEnd i results
  | .callEnds i => l.callEnds i
  | .fire t => l.fire t

/-- The loop after some moves. -/
def after (l : Loop) (ms : List Move) : Loop := ms.foldl move l

@[simp] theorem after_nil (l : Loop) : l.after [] = l := rfl

theorem after_cons (l : Loop) (x : Move) (ms : List Move) :
    l.after (x :: ms) = (l.move x).after ms := rfl

theorem after_append (l : Loop) (ms ms' : List Move) :
    l.after (ms ++ ms') = (l.after ms).after ms' :=
  List.foldl_append

theorem after_concat (l : Loop) (ms : List Move) (x : Move) :
    l.after (ms ++ [x]) = (l.after ms).move x := by
  rw [after_append, after_cons, after_nil]

/-- What holds at the outset and is kept by every move holds after every history. -/
theorem after_induction {P : Loop → Prop} {l : Loop} (h : P l)
    (hmove : ∀ m x, P m → P (m.move x)) (ms : List Move) : P (l.after ms) := by
  induction ms generalizing l with
  | nil => exact h
  | cons x ms ih =>
    rw [after_cons]
    exact ih (hmove l x h)

/-- What no move raises by more than one is no more than the moves so far. -/
theorem after_le {f : Loop → Nat} (hmove : ∀ m x, f (Loop.move m x) ≤ f m + 1) (l : Loop)
    (ms : List Move) : f (l.after ms) ≤ f l + ms.length := by
  induction ms generalizing l with
  | nil => exact Nat.le_refl _
  | cons x ms ih =>
    calc f (l.after (x :: ms))
      _ ≤ f (l.move x) + ms.length := ih (l.move x)
      _ ≤ f l + 1 + ms.length := Nat.add_le_add_right (hmove l x) _
      _ = f l + (x :: ms).length := by rw [List.length_cons, Nat.add_assoc, Nat.add_comm 1]

/-! ## Stages -/

variable {l : Loop} {v : View} {i : Nat} {r : Run}

@[simp] theorem setStage_generation (stage : Stage) :
    (l.setStage i stage).generation = l.generation := rfl

@[simp] theorem setStage_started (stage : Stage) :
    (l.setStage i stage).started = l.started := rfl

@[simp] theorem setStage_settings (stage : Stage) :
    (l.setStage i stage).settings = l.settings := rfl

@[simp] theorem setStage_control (stage : Stage) :
    (l.setStage i stage).control = l.control := rfl

@[simp] theorem setStage_timers (stage : Stage) :
    (l.setStage i stage).timers = l.timers := rfl

@[simp] theorem setStage_calls (stage : Stage) :
    (l.setStage i stage).calls = l.calls := rfl

@[simp] theorem setStage_hadPeers (stage : Stage) :
    (l.setStage i stage).hadPeers = l.hadPeers := rfl

theorem setStage_runs (stage : Stage) :
    (l.setStage i stage).runs = l.runs.modify i fun r => { r with stage } := rfl

theorem getElem?_setStage (stage : Stage) (j : Nat) :
    (l.setStage i stage).runs[j]? =
      l.runs[j]?.map fun r => if i = j then { r with stage } else r := by
  rw [setStage_runs, List.getElem?_modify]
  rfl

/-- The run whose stage is set has that stage. -/
theorem getElem?_setStage_self (h : l.runs[i]? = some r) (stage : Stage) :
    (l.setStage i stage).runs[i]? = some ⟨r.generation, stage⟩ := by
  rw [getElem?_setStage, h, Option.map_some, if_pos rfl]

/-- Of two stages that a run is given in turn the second stays. -/
theorem setStage_setStage (stage stage' : Stage) :
    (l.setStage i stage).setStage i stage' = l.setStage i stage' := by
  have hruns : (l.runs.modify i fun r => { r with stage }).modify i
      (fun r => { r with stage := stage' })
      = l.runs.modify i fun r => { r with stage := stage' } := List.modify_modify_eq ..
  simp only [setStage, hruns]

/-- A run that is given the stage it has stays as it is. -/
theorem setStage_self (h : l.runs[i]? = some r) : l.setStage i r.stage = l := by
  have hruns : (l.runs.modify i fun x => { x with stage := r.stage }) = l.runs := by
    apply List.ext_getElem?
    intro j
    rw [List.getElem?_modify]
    by_cases hij : i = j
    · subst hij
      simp [h]
    · simp [hij]
  simp only [setStage, hruns]

/-! ## Timers that fire no more -/

@[simp] theorem abort_generation (t : Option Nat) : (l.abort t).generation = l.generation := by
  cases t <;> rfl

@[simp] theorem abort_started (t : Option Nat) : (l.abort t).started = l.started := by
  cases t <;> rfl

@[simp] theorem abort_settings (t : Option Nat) : (l.abort t).settings = l.settings := by
  cases t <;> rfl

@[simp] theorem abort_control (t : Option Nat) : (l.abort t).control = l.control := by
  cases t <;> rfl

@[simp] theorem abort_runs (t : Option Nat) : (l.abort t).runs = l.runs := by
  cases t <;> rfl

@[simp] theorem abort_calls (t : Option Nat) : (l.abort t).calls = l.calls := by
  cases t <;> rfl

@[simp] theorem abort_hadPeers (t : Option Nat) : (l.abort t).hadPeers = l.hadPeers := by
  cases t <;> rfl

/-! ## One step of a run -/

/-- What a step of a run changes beyond the run. -/
def effect (l : Loop) (v : View) (r : Run) : Loop :=
  match r.stage with
  | .look timeout _ =>
    if hasInternetPeer v.remotes || l.isOverdue v.now timeout then
      { l with hadPeers := some v.now }
    else l
  | .record uri => { l with lastCandidate := some uri, attempts := l.attempts + 1 }
  | .call uri => { l with calls := l.calls ++ [uri] }
  | .arm delay =>
    { l with
      timers := l.timers ++
        [⟨r.generation, ⟨v.clock.nanos + (timerDelay delay).nanos⟩, .waiting⟩] }
  | .replace timer => { l.abort l.pending with pending := some timer }
  | _ => l

/-- The stage of a run after one step. -/
def nextStage (l : Loop) (v : View) (r : Run) : Stage :=
  match r.stage with
  | .entry => if l.started then .entryGeneration else .ended
  | .entryGeneration => if l.generation = r.generation then .limits else .ended
  | .limits => .look l.settings.timeout l.settings.maxCandidates
  | .look timeout candidates =>
    if hasInternetPeer v.remotes then .closing
    else if l.isOverdue v.now timeout then .probing candidates else .closing
  | .resumed closest => if l.started then .resumedGeneration closest else .closing
  | .resumedGeneration closest =>
    if l.generation = r.generation then
      match l.choose? v.draw closest with
      | some uri => .record uri
      | none => .closing
    else .closing
  | .record uri => .call uri
  | .call uri => .calling uri
  | .closing => if l.started then .closingGeneration else .ended
  | .closingGeneration => if l.generation = r.generation then .delay else .ended
  | .delay => .arm l.settings.pollInterval
  | .arm _ => .replace l.timers.length
  | .replace _ => .ended
  | waiting => waiting

theorem step_none (h : l.runs[i]? = none) : l.step v i = l := by
  rw [step, h]

/-- A step changes what is shared by `effect`, and its run to `nextStage`. -/
theorem step_eq (h : l.runs[i]? = some r) :
    l.step v i = (l.effect v r).setStage i (l.nextStage v r) := by
  obtain ⟨generation, stage⟩ := r
  rw [step, h]
  cases stage with
  | look timeout candidates =>
    simp only [look, effect, nextStage]
    cases hasInternetPeer v.remotes <;> cases l.isOverdue v.now timeout <;> rfl
  -- the stages in which a run takes no step
  | probing | calling | ended => exact (setStage_self h).symm
  | _ => rfl

@[simp] theorem effect_generation : (l.effect v r).generation = l.generation := by
  obtain ⟨generation, stage⟩ := r
  cases stage with
  | look => simp only [effect]; split <;> rfl
  | replace => simp [effect]
  | _ => rfl

@[simp] theorem effect_started : (l.effect v r).started = l.started := by
  obtain ⟨generation, stage⟩ := r
  cases stage with
  | look => simp only [effect]; split <;> rfl
  | replace => simp [effect]
  | _ => rfl

@[simp] theorem effect_control : (l.effect v r).control = l.control := by
  obtain ⟨generation, stage⟩ := r
  cases stage with
  | look => simp only [effect]; split <;> rfl
  | replace => simp [effect]
  | _ => rfl

@[simp] theorem effect_settings : (l.effect v r).settings = l.settings := by
  obtain ⟨generation, stage⟩ := r
  cases stage with
  | look => simp only [effect]; split <;> rfl
  | replace => simp [effect]
  | _ => rfl

@[simp] theorem effect_runs : (l.effect v r).runs = l.runs := by
  obtain ⟨generation, stage⟩ := r
  cases stage with
  | look => simp only [effect]; split <;> rfl
  | replace => simp [effect]
  | _ => rfl

@[simp] theorem step_generation : (l.step v i).generation = l.generation := by
  cases h : l.runs[i]? with
  | none => rw [step_none h]
  | some r => simp [step_eq h]

@[simp] theorem step_started : (l.step v i).started = l.started := by
  cases h : l.runs[i]? with
  | none => rw [step_none h]
  | some r => simp [step_eq h]

@[simp] theorem step_settings : (l.step v i).settings = l.settings := by
  cases h : l.runs[i]? with
  | none => rw [step_none h]
  | some r => simp [step_eq h]

@[simp] theorem step_control : (l.step v i).control = l.control := by
  cases h : l.runs[i]? with
  | none => rw [step_none h]
  | some r => simp [step_eq h]

/-- The run that takes a step has its next stage then. -/
theorem getElem?_step_self (h : l.runs[i]? = some r) :
    (l.step v i).runs[i]? = some ⟨r.generation, l.nextStage v r⟩ := by
  have hr : (l.effect v r).runs[i]? = some r := by rw [effect_runs, h]
  rw [step_eq h, getElem?_setStage_self hr]

/-- The other runs stay as they are. -/
theorem getElem?_step_of_ne {j : Nat} (h : i ≠ j) : (l.step v i).runs[j]? = l.runs[j]? := by
  cases hr : l.runs[i]? with
  | none => rw [step_none hr]
  | some r => rw [step_eq hr, getElem?_setStage, effect_runs]; simp [h]

/-! ## What lasts -/

/-- All generations that runs and timers belong to. -/
def generations (l : Loop) : List Nat := l.runs.map (·.generation) ++ l.timers.map (·.generation)

theorem mem_generations_of_run (h : l.runs[i]? = some r) : r.generation ∈ l.generations :=
  List.mem_append_left _ (List.mem_map_of_mem (List.mem_of_getElem? h))

theorem mem_generations_of_timer {t : Nat} {x : Timer} (h : l.timers[t]? = some x) :
    x.generation ∈ l.generations :=
  List.mem_append_right _ (List.mem_map_of_mem (List.mem_of_getElem? h))

@[simp] theorem setStage_generations (stage : Stage) :
    (l.setStage i stage).generations = l.generations := by
  have hkeep : ∀ r : Run, ({ r with stage } : Run).generation = r.generation := fun _ => rfl
  rw [generations, setStage_runs, map_modify_eq hkeep, setStage_timers, generations]

theorem abort_map_generation (t : Option Nat) :
    (l.abort t).timers.map (·.generation) = l.timers.map (·.generation) := by
  cases t with
  | none => rfl
  | some t =>
    apply map_modify_eq
    intro x
    split <;> rfl

@[simp] theorem abort_generations (t : Option Nat) : (l.abort t).generations = l.generations := by
  rw [generations, abort_runs, abort_map_generation, generations]

theorem generations_append_timer (x : Timer) :
    ({ l with timers := l.timers ++ [x] } : Loop).generations =
      l.generations ++ [x.generation] := by
  simp [generations]

/-- No step of a run brings in a generation, and none is lost. -/
theorem mem_generations_step {g : Nat} : g ∈ (l.step v i).generations ↔ g ∈ l.generations := by
  cases h : l.runs[i]? with
  | none => rw [step_none h]
  | some r =>
    have hmem : r.generation ∈ l.generations := mem_generations_of_run h
    rw [step_eq h, setStage_generations]
    obtain ⟨generation, stage⟩ := r
    cases stage with
    | arm delay =>
      -- the new timer belongs to the generation of its run
      rw [effect, generations_append_timer, List.mem_append, List.mem_singleton]
      constructor
      · rintro (hg | rfl)
        · exact hg
        · exact hmem
      · exact Or.inl
    | look => simp only [effect]; split <;> rfl
    | replace timer =>
      show g ∈ (l.abort l.pending).generations ↔ g ∈ l.generations
      rw [abort_generations]
    | _ => rfl

theorem probesEnd_eq (results : List ProbeResult) :
    l.probesEnd i results = l ∨ ∃ g n, l.runs[i]? = some ⟨g, .probing n⟩ ∧
      l.probesEnd i results = l.setStage i (.resumed (rankReachable results n)) := by
  unfold probesEnd
  split
  · next g n h => exact Or.inr ⟨g, n, h, rfl⟩
  · exact Or.inl rfl

theorem callEnds_eq :
    l.callEnds i = l ∨ ∃ g uri, l.runs[i]? = some ⟨g, .calling uri⟩ ∧
      l.callEnds i = l.setStage i .closing := by
  unfold callEnds
  split
  · next g uri h => exact Or.inr ⟨g, uri, h, rfl⟩
  · exact Or.inl rfl

theorem fire_eq (t : Nat) :
    l.fire t = l ∨ ∃ g d, l.timers[t]? = some ⟨g, d, .waiting⟩ ∧
      l.fire t = { l with
        timers := l.timers.modify t fun x => { x with status := .fired }
        runs := l.runs ++ [⟨g, .entry⟩] } := by
  unfold fire
  split
  · next g d h => exact Or.inr ⟨g, d, h, rfl⟩
  · exact Or.inl rfl

/-- Whether two loops agree in all that lasts beyond runs and timers. -/
structure Agrees (l m : Loop) : Prop where
  started : m.started = l.started
  control : m.control = l.control
  generation : m.generation = l.generation
  calls : m.calls = l.calls
  hadPeers : m.hadPeers = l.hadPeers

/-- What comes from outside changes runs and timers alone. -/
theorem agrees_of_isOutside {x : Move} (h : x.isOutside = true) : l.Agrees (l.move x) := by
  have hsame : l.Agrees l := ⟨rfl, rfl, rfl, rfl, rfl⟩
  cases x with
  | command | owner | run => exact absurd h Bool.false_ne_true
  | probesEnd i results =>
    rcases l.probesEnd_eq (i := i) results with he | ⟨g, n, -, he⟩ <;> rw [move, he]
    · exact hsame
    · exact ⟨rfl, rfl, rfl, rfl, rfl⟩
  | callEnds i =>
    rcases l.callEnds_eq (i := i) with he | ⟨g, uri, -, he⟩ <;> rw [move, he]
    · exact hsame
    · exact ⟨rfl, rfl, rfl, rfl, rfl⟩
  | fire t =>
    rcases l.fire_eq t with he | ⟨g, d, -, he⟩ <;> rw [move, he]
    · exact hsame
    · exact ⟨rfl, rfl, rfl, rfl, rfl⟩

theorem mem_generations_fire {t g : Nat} : g ∈ (l.fire t).generations ↔ g ∈ l.generations := by
  rcases l.fire_eq t with h | ⟨g', d, ht, h⟩
  · rw [h]
  · have hmem : g' ∈ l.generations := mem_generations_of_timer ht
    have hkeep : ∀ x : Timer, ({ x with status := .fired } : Timer).generation = x.generation :=
      fun _ => rfl
    rw [h, generations, map_modify_eq hkeep, List.map_append]
    simp only [generations, List.mem_append, List.map_cons, List.map_nil,
      List.mem_singleton] at hmem ⊢
    constructor
    · rintro ((hg | rfl) | hg)
      · exact Or.inl hg
      · exact hmem
      · exact Or.inr hg
    · rintro (hg | hg)
      · exact Or.inl (Or.inl hg)
      · exact Or.inr hg

/-! ## One step of the owner -/

theorem controlStep_runs : l.controlStep.runs = l.runs ++ l.control.spawned := by
  unfold controlStep
  cases hc : l.control with
  | spawn g => rfl
  | markStarted | markStopped => dsimp only; split <;> exact (List.append_nil _).symm
  | takePending => simp [Control.spawned]
  | _ => exact (List.append_nil _).symm

/-- The owner aborts a timer when it stops the loop, and touches none else. -/
theorem controlStep_timers : l.controlStep.timers =
    if l.control.isAborting then (l.abort l.pending).timers else l.timers := by
  unfold controlStep
  cases hc : l.control with
  | markStarted | markStopped => dsimp only; split <;> rfl
  | _ => rfl

/-- The owner begins a generation when it starts the loop and when it stops it. -/
theorem controlStep_generation : l.controlStep.generation =
    if l.control.isCounting then l.generation + 1 else l.generation := by
  unfold controlStep
  cases hc : l.control with
  | markStarted | markStopped => dsimp only; split <;> rfl
  | takePending => simp [Control.isCounting]
  | _ => rfl

@[simp] theorem controlStep_calls : l.controlStep.calls = l.calls := by
  unfold controlStep
  cases hc : l.control with
  | markStarted | markStopped => dsimp only; split <;> rfl
  | takePending => simp
  | _ => rfl

@[simp] theorem controlStep_hadPeers : l.controlStep.hadPeers = l.hadPeers := by
  unfold controlStep
  cases hc : l.control with
  | markStarted | markStopped => dsimp only; split <;> rfl
  | takePending => simp
  | _ => rfl

theorem mem_generations_controlStep {g : Nat} :
    g ∈ l.controlStep.generations ↔ g ∈ l.generations ∨ l.control = .spawn g := by
  have htimers : l.controlStep.timers.map (·.generation) = l.timers.map (·.generation) := by
    rw [controlStep_timers]
    split
    · exact abort_map_generation _
    · rfl
  rw [generations, controlStep_runs, htimers, generations, List.map_append]
  cases l.control with
  | spawn g' =>
    simp only [Control.spawned, List.map_cons, List.map_nil, List.mem_append, List.mem_singleton,
      Control.spawn.injEq, eq_comm (a := g')]
    exact or_right_comm
  | _ => simp [Control.spawned]

/-- Only the owner brings in a generation: the one whose first run it begins. -/
theorem mem_generations_move {x : Move} {g : Nat} :
    g ∈ (l.move x).generations ↔ g ∈ l.generations ∨ (x = .owner ∧ l.control = .spawn g) := by
  cases x with
  | command c =>
    simp only [move, reduceCtorEq, false_and, or_false]
    split <;> rfl
  | owner => simp [move, mem_generations_controlStep]
  | run i v => simp [move, mem_generations_step]
  | probesEnd i results =>
    simp only [move, reduceCtorEq, false_and, or_false]
    rcases l.probesEnd_eq (i := i) results with h | ⟨g', n, hr, h⟩ <;> rw [h]
    rw [setStage_generations]
  | callEnds i =>
    simp only [move, reduceCtorEq, false_and, or_false]
    rcases l.callEnds_eq (i := i) with h | ⟨g', uri, hr, h⟩ <;> rw [h]
    rw [setStage_generations]
  | fire t => simp [move, mem_generations_fire]

/-- Runs and timers leave to the owner what is the owner's. -/
theorem move_of_isWork {x : Move} (h : x.isWork = true) :
    (l.move x).started = l.started ∧ (l.move x).control = l.control ∧
      (l.move x).generation = l.generation := by
  cases hx : x.isOutside with
  | true =>
    have hagrees := agrees_of_isOutside (l := l) hx
    exact ⟨hagrees.started, hagrees.control, hagrees.generation⟩
  | false =>
    cases x with
    | run i v => exact ⟨step_started, step_control, step_generation⟩
    | command | owner => exact absurd h Bool.false_ne_true
    | _ => exact absurd hx.symm Bool.false_ne_true

theorem generation_le_move (x : Move) : l.generation ≤ (l.move x).generation := by
  cases hx : x.isWork with
  | true => exact Nat.le_of_eq (move_of_isWork hx).2.2.symm
  | false =>
    cases x with
    | command c => simp only [move]; split <;> exact Nat.le_refl _
    | owner => rw [move, controlStep_generation]; split <;> omega
    | _ => exact absurd hx.symm Bool.false_ne_true

theorem generation_le_after (ms : List Move) : l.generation ≤ (l.after ms).generation :=
  after_induction (P := fun m => l.generation ≤ m.generation) (Nat.le_refl _)
    (fun _ x h => Nat.le_trans h (generation_le_move x)) ms

theorem generation_move_le (l : Loop) (x : Move) : (l.move x).generation ≤ l.generation + 1 := by
  cases hx : x.isWork with
  | true =>
    rw [(move_of_isWork hx).2.2]
    exact Nat.le_succ _
  | false =>
    cases x with
    | command c => simp only [move]; split <;> exact Nat.le_succ _
    | owner => rw [move, controlStep_generation]; split <;> omega
    | _ => exact absurd hx.symm Bool.false_ne_true

/-- Generations are no more than the moves so far. -/
theorem generation_after_le (ms : List Move) : (l.after ms).generation ≤ l.generation + ms.length :=
  after_le generation_move_le l ms

theorem mem_generations_after {g : Nat} (h : g ∈ l.generations) (ms : List Move) :
    g ∈ (l.after ms).generations :=
  after_induction (P := fun m => g ∈ m.generations) h
    (fun _ _ hm => mem_generations_move.mpr (Or.inl hm)) ms

/-- The stages that a run at a stage of loop `l` can be at after a move. -/
inductive Leads (l : Loop) (i : Nat) (r : Run) : Move → Stage → Prop
  | same (x : Move) : Leads l i r x r.stage
  | step (v : View) : Leads l i r (.run i v) (l.nextStage v r)
  | probesEnd {n : Nat} (results : List ProbeResult) (h : r.stage = .probing n) :
      Leads l i r (.probesEnd i results) (.resumed (rankReachable results n))
  | callEnds {uri : Url} (h : r.stage = .calling uri) : Leads l i r (.callEnds i) .closing

/-- A run stays in its place and keeps its generation, and only its own step and what it waits
for lead it on. -/
theorem leads_move (h : l.runs[i]? = some r) (x : Move) :
    ∃ stage, (l.move x).runs[i]? = some ⟨r.generation, stage⟩ ∧ l.Leads i r x stage := by
  have happend : ∀ rs : List Run, (l.runs ++ rs)[i]? = some r := by
    intro rs
    obtain ⟨hi, -⟩ := List.getElem?_eq_some_iff.mp h
    rw [List.getElem?_append_left hi, h]
  have hother : ∀ j stage, j ≠ i → (l.setStage j stage).runs[i]? = some r := by
    intro j stage hj
    rw [getElem?_setStage, h]
    simp [hj]
  cases x with
  | command c => simp only [move]; split <;> exact ⟨r.stage, h, .same _⟩
  | owner => exact ⟨r.stage, by rw [move, controlStep_runs]; exact happend _, .same _⟩
  | run j v =>
    by_cases hij : j = i
    · subst hij
      exact ⟨_, getElem?_step_self h, .step v⟩
    · exact ⟨r.stage, by rw [move, getElem?_step_of_ne hij]; exact h, .same _⟩
  | probesEnd j results =>
    rcases l.probesEnd_eq (i := j) results with he | ⟨g, n, hj, he⟩ <;> rw [move, he]
    · exact ⟨r.stage, h, .same _⟩
    · by_cases hij : j = i
      · subst hij
        cases h.symm.trans hj
        exact ⟨_, getElem?_setStage_self h _, .probesEnd results rfl⟩
      · exact ⟨r.stage, hother j _ hij, .same _⟩
  | callEnds j =>
    rcases l.callEnds_eq (i := j) with he | ⟨g, uri, hj, he⟩ <;> rw [move, he]
    · exact ⟨r.stage, h, .same _⟩
    · by_cases hij : j = i
      · subst hij
        cases h.symm.trans hj
        exact ⟨_, getElem?_setStage_self h _, .callEnds rfl⟩
      · exact ⟨r.stage, hother j _ hij, .same _⟩
  | fire t =>
    rcases l.fire_eq t with he | ⟨g, d, -, he⟩ <;> rw [move, he]
    · exact ⟨r.stage, h, .same _⟩
    · exact ⟨r.stage, happend _, .same _⟩

/-- A run that a move begins is about to look whether the loop is on. -/
theorem stage_of_begun {x : Move} (hnone : l.runs[i]? = none)
    (h : (l.move x).runs[i]? = some r) : r.stage = .entry := by
  have hnew : ∀ rs : List Run, (∀ r' ∈ rs, r'.stage = .entry) →
      (l.runs ++ rs)[i]? = some r → r.stage = .entry := by
    intro rs hrs hr
    rw [List.getElem?_append_right (List.getElem?_eq_none_iff.mp hnone)] at hr
    exact hrs r (List.mem_of_getElem? hr)
  have hset : ∀ j stage, (l.setStage j stage).runs[i]? ≠ some r := by
    intro j stage
    rw [getElem?_setStage, hnone]
    simp
  have hsame : ∀ m : Loop, m.runs = l.runs → m.runs[i]? ≠ some r := by
    intro m hm
    rw [hm, hnone]
    simp
  cases x with
  | command c =>
    simp only [move] at h
    split at h <;> exact absurd h (hsame _ rfl)
  | owner =>
    rw [move, controlStep_runs] at h
    refine hnew l.control.spawned ?_ h
    cases l.control <;> simp [Control.spawned]
  | run j v =>
    by_cases hij : j = i
    · rw [move, hij, step_none hnone] at h
      exact absurd h (hsame l rfl)
    · rw [move, getElem?_step_of_ne hij] at h
      exact absurd h (hsame l rfl)
  | probesEnd j results =>
    rcases l.probesEnd_eq (i := j) results with he | ⟨g, n, -, he⟩ <;> rw [move, he] at h
    · exact absurd h (hsame l rfl)
    · exact absurd h (hset j _)
  | callEnds j =>
    rcases l.callEnds_eq (i := j) with he | ⟨g, uri, -, he⟩ <;> rw [move, he] at h
    · exact absurd h (hsame l rfl)
    · exact absurd h (hset j _)
  | fire t =>
    rcases l.fire_eq t with he | ⟨g, d, -, he⟩ <;> rw [move, he] at h
    · exact absurd h (hsame l rfl)
    · exact hnew [⟨g, .entry⟩] (by simp) h

theorem exists_run_after (h : l.runs[i]? = some r) (ms : List Move) :
    ∃ stage, (l.after ms).runs[i]? = some ⟨r.generation, stage⟩ :=
  after_induction (P := fun m => ∃ stage, m.runs[i]? = some ⟨r.generation, stage⟩)
    ⟨r.stage, h⟩
    (fun _ x ⟨_, hm⟩ => let ⟨stage, hs, _⟩ := leads_move hm x; ⟨stage, hs⟩) ms

end Loop

end MeshNode.Peering
