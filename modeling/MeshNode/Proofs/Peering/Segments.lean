import MeshNode.Proofs.Peering.Generations

/-!
# Runs and commands without interruption

When nothing comes in between, a run goes on until it waits, and a command of the
owner is done at once. Such events are rows of moves, so what moves keep is kept
by events as well.

* **segments** — `rank_segment`: a segment takes its run to the next wait or to
  the end; `segment_of_old`: a run of an older generation changes nothing but
  itself, and ends; `calls_segment`: a call begins only in a segment of a run of
  the present generation;
* **events** — `happen_eq`: an event is a row of moves of an idle owner's loop.
-/

namespace MeshNode.Peering

/-- What one application keeps is kept by any number of them. -/
theorem repeat_induction {α : Type} {P : α → Prop} {f : α → α} {a : α} (h : P a)
    (hf : ∀ b, P b → P (f b)) (n : Nat) : P (Nat.repeat f n a) := by
  induction n with
  | zero => exact h
  | succ n ih => exact hf _ ih

/-! ## How long a segment is -/

/-- The most steps that a run takes before it waits or ends. -/
def Stage.rank : Stage → Nat
  | .entry => 9
  | .entryGeneration => 8
  | .limits => 7
  | .look _ _ => 6
  | .probing _ => 0
  | .resumed _ => 7
  | .resumedGeneration _ => 6
  | .record _ => 2
  | .call _ => 1
  | .calling _ => 0
  | .closing => 5
  | .closingGeneration => 4
  | .delay => 3
  | .arm _ => 2
  | .replace _ => 1
  | .ended => 0

/-- Whether a run waits for its probes or its call. -/
def Stage.isWaiting : Stage → Bool
  | .probing _ => true
  | .calling _ => true
  | _ => false

/-- Whether a run may stand here between two segments. -/
def Stage.isResting : Stage → Bool
  | .entry => true
  | .probing _ => true
  | .resumed _ => true
  | .calling _ => true
  | .closing => true
  | .ended => true
  | _ => false

/-- Whether a run has yet to find out whether its generation is the present one, or has ended. -/
def Stage.isUnchecked : Stage → Bool
  | .entry => true
  | .entryGeneration => true
  | .resumed _ => true
  | .resumedGeneration _ => true
  | .closing => true
  | .closingGeneration => true
  | .ended => true
  | _ => false

theorem Stage.rank_le (s : Stage) : s.rank ≤ Loop.segmentSteps := by
  cases s <;> simp [rank, Loop.segmentSteps]

theorem Stage.isResting_of_rank {s : Stage} (h : s.rank = 0) : s.isResting = true := by
  cases s <;> simp_all [rank, isResting]

namespace Loop

variable {l : Loop} {v : View} {i : Nat} {r : Run}

theorem rank_nextStage : (l.nextStage v r).rank ≤ r.stage.rank - 1 := by
  obtain ⟨generation, stage⟩ := r
  cases stage with
  | look =>
    simp only [nextStage]
    split
    · simp [Stage.rank]
    · split <;> simp [Stage.rank]
  | resumedGeneration =>
    simp only [nextStage]
    split
    · split <;> simp [Stage.rank]
    · simp [Stage.rank]
  | entry | entryGeneration | resumed | closing | closingGeneration =>
    simp only [nextStage]
    split <;> simp [Stage.rank]
  | _ => simp [nextStage, Stage.rank]

/-- After some steps a run has as many fewer left. -/
theorem exists_run_repeat (h : l.runs[i]? = some r) (n : Nat) :
    ∃ s, (Nat.repeat (step v i) n l).runs[i]? = some ⟨r.generation, s⟩ ∧
      s.rank ≤ r.stage.rank - n := by
  induction n with
  | zero => exact ⟨r.stage, h, Nat.le_refl _⟩
  | succ n ih =>
    obtain ⟨s, hs, hrank⟩ := ih
    have hnext := rank_nextStage (l := Nat.repeat (step v i) n l) (v := v)
      (r := ⟨r.generation, s⟩)
    dsimp only at hnext
    have hself := getElem?_step_self (v := v) hs
    -- the rank falls with every step until it is zero, where it stays
    exact ⟨_, hself, by omega⟩

/-- A segment takes its run to the next wait or to the end. -/
theorem rank_segment (h : l.runs[i]? = some r) :
    ∃ s, (l.segment v i).runs[i]? = some ⟨r.generation, s⟩ ∧ s.rank = 0 := by
  obtain ⟨s, hs, hrank⟩ := exists_run_repeat (v := v) h segmentSteps
  have hle := r.stage.rank_le
  exact ⟨s, hs, by omega⟩

theorem getElem?_segment_of_ne {j : Nat} (h : i ≠ j) :
    (l.segment v i).runs[j]? = l.runs[j]? :=
  repeat_induction (P := fun m : Loop => m.runs[j]? = l.runs[j]?) rfl
    (fun _ hm => (getElem?_step_of_ne h).trans hm) segmentSteps

theorem segment_none (h : l.runs[i]? = none) : l.segment v i = l :=
  repeat_induction (P := (· = l)) rfl (fun _ hm => by rw [hm, step_none h]) segmentSteps

/-! ## Runs of older generations -/

/-- A run of an older generation that has yet to find this out changes nothing by a step but its
own stage, and has not found out what would let it go on. -/
theorem step_of_old (h : l.runs[i]? = some r) (hold : r.generation ≠ l.generation)
    (hstage : r.stage.isUnchecked = true) :
    ∃ s, l.step v i = l.setStage i s ∧ s.isUnchecked = true ∧ s.rank ≤ r.stage.rank - 1 := by
  have hrank := rank_nextStage (l := l) (v := v) (r := r)
  refine ⟨l.nextStage v r, ?_, ?_, hrank⟩
  · rw [step_eq h]
    obtain ⟨generation, stage⟩ := r
    cases stage <;> simp_all [Stage.isUnchecked, effect]
  · have hne : ¬ l.generation = r.generation := fun he => hold he.symm
    obtain ⟨generation, stage⟩ := r
    -- the look at the flag may pass, but the look at the generation that follows it fails
    cases stage with
    | entry | resumed | closing => simp only [nextStage]; split <;> rfl
    | entryGeneration | resumedGeneration | closingGeneration =>
      simp only [nextStage]
      rw [if_neg hne]
      rfl
    | ended => rfl
    | _ => simp [Stage.isUnchecked] at hstage

theorem repeat_of_old (h : l.runs[i]? = some r) (hold : r.generation ≠ l.generation)
    (hstage : r.stage.isUnchecked = true) (n : Nat) :
    ∃ s, Nat.repeat (step v i) n l = l.setStage i s ∧ s.isUnchecked = true ∧
      s.rank ≤ r.stage.rank - n := by
  induction n with
  | zero => exact ⟨r.stage, (setStage_self h).symm, hstage, Nat.le_refl _⟩
  | succ n ih =>
    obtain ⟨s, hs, hunchecked, hrank⟩ := ih
    obtain ⟨s', hs', hunchecked', hrank'⟩ := step_of_old (v := v) (l := l.setStage i s)
      (getElem?_setStage_self h s) hold hunchecked
    dsimp only at hrank'
    refine ⟨s', ?_, hunchecked', by omega⟩
    show step v i (Nat.repeat (step v i) n l) = l.setStage i s'
    rw [hs, hs', setStage_setStage]

/-- A run that waits stays as it is. -/
theorem segment_of_waiting (h : l.runs[i]? = some r) (hwait : r.stage.isWaiting = true) :
    l.segment v i = l := by
  refine repeat_induction (P := (· = l)) rfl (fun m hm => ?_) segmentSteps
  rw [hm, step_eq h]
  obtain ⟨generation, stage⟩ := r
  cases stage with
  | probing | calling => exact setStage_self h
  | _ => simp [Stage.isWaiting] at hwait

/-- A run of an older generation ends with its next segment, unless it waits, and changes nothing
else. -/
theorem segment_of_old (h : l.runs[i]? = some r) (hold : r.generation ≠ l.generation)
    (hrest : r.stage.isResting = true) :
    l.segment v i = if r.stage.isWaiting then l else l.setStage i .ended := by
  cases hwait : r.stage.isWaiting with
  | true => exact segment_of_waiting h hwait
  | false =>
    have hunchecked : r.stage.isUnchecked = true := by
      cases hs : r.stage <;> simp_all [Stage.isResting, Stage.isWaiting, Stage.isUnchecked]
    obtain ⟨s, hs, hstage, hrank⟩ := repeat_of_old (v := v) h hold hunchecked segmentSteps
    have hle := r.stage.rank_le
    have hzero : s.rank = 0 := by omega
    have hended : s = .ended := by
      cases s <;> simp_all [Stage.rank, Stage.isUnchecked]
    rw [segment, hs, hended]
    rfl

/-! ## Calls in a segment -/

/-- What a step adds to the calls. -/
theorem calls_step (h : l.runs[i]? = some r) :
    (l.step v i).calls = l.calls ++ match r.stage with | .call uri => [uri] | _ => [] := by
  rw [step_eq h, setStage_calls]
  obtain ⟨generation, stage⟩ := r
  cases stage with
  | look => simp only [effect]; split <;> simp
  | _ => simp [effect]

/-- What a segment that began with loop `l` has done for a call when its run, of generation `g`,
has come to a stage of loop `m`. -/
def CallLaw (l m : Loop) (g : Nat) : Stage → Prop
  | .resumedGeneration _ => l.started = true ∧ m.calls = l.calls
  | .record _ => (l.started = true ∧ g = l.generation) ∧ m.calls = l.calls
  | .call _ => (l.started = true ∧ g = l.generation) ∧ m.calls = l.calls
  | .calling _ => m.calls = l.calls ∨
      (l.started = true ∧ g = l.generation) ∧ ∃ uri, m.calls = l.calls ++ [uri]
  | _ => m.calls = l.calls

theorem CallLaw.step {m : Loop} (hr : m.runs[i]? = some r) (hstarted : m.started = l.started)
    (hgeneration : m.generation = l.generation) (h : CallLaw l m r.generation r.stage) :
    CallLaw l (m.step v i) r.generation (m.nextStage v r) := by
  have hcalls := calls_step (v := v) hr
  obtain ⟨g, stage⟩ := r
  cases stage with
  | look timeout candidates =>
    simp only [List.append_nil] at hcalls
    simp only [nextStage]
    split
    · exact hcalls.trans h
    · split <;> exact hcalls.trans h
  | entry | entryGeneration | closing | closingGeneration =>
    simp only [List.append_nil] at hcalls
    simp only [nextStage]
    split <;> exact hcalls.trans h
  | resumed closest =>
    simp only [List.append_nil] at hcalls
    simp only [nextStage]
    split
    · next hon => exact ⟨hstarted ▸ hon, hcalls.trans h⟩
    · exact hcalls.trans h
  | resumedGeneration closest =>
    simp only [List.append_nil] at hcalls
    simp only [nextStage]
    split
    · next hg =>
      split
      · exact ⟨⟨h.1, by rw [← hg, hgeneration]⟩, hcalls.trans h.2⟩
      · exact hcalls.trans h.2
    · exact hcalls.trans h.2
  | record uri =>
    simp only [List.append_nil] at hcalls
    exact ⟨h.1, hcalls.trans h.2⟩
  | call uri => exact Or.inr ⟨h.1, uri, by rw [hcalls, h.2]⟩
  | calling uri =>
    -- the call was made before this step, and the run waits for it
    simp only [List.append_nil] at hcalls
    rcases h with h | ⟨hpresent, called, h⟩
    · exact Or.inl (hcalls.trans h)
    · exact Or.inr ⟨hpresent, called, hcalls.trans h⟩
  | _ =>
    simp only [List.append_nil] at hcalls
    exact hcalls.trans h

theorem CallLaw.of_resting {s : Stage} (h : s.isResting = true) : CallLaw l l r.generation s := by
  cases s with
  | calling => exact Or.inl rfl
  | entry | probing | resumed | closing | ended => exact rfl
  | _ => simp [Stage.isResting] at h

theorem CallLaw.calls {m : Loop} {g : Nat} {s : Stage} (h : CallLaw l m g s) :
    m.calls = l.calls ∨
      l.started = true ∧ g = l.generation ∧ ∃ uri, m.calls = l.calls ++ [uri] := by
  cases s with
  | resumedGeneration | record | call => exact Or.inl h.2
  | calling =>
    rcases h with h | ⟨⟨hon, hg⟩, h⟩
    · exact Or.inl h
    · exact Or.inr ⟨hon, hg, h⟩
  | _ => exact Or.inl h

/-- A segment makes at most one call, and only if its run belongs to the present generation and
the loop is on. -/
theorem calls_segment (h : l.runs[i]? = some r) (hrest : r.stage.isResting = true) :
    (l.segment v i).calls = l.calls ∨
      l.started = true ∧ r.generation = l.generation ∧
        ∃ uri, (l.segment v i).calls = l.calls ++ [uri] := by
  -- the flag and the generation stay as they are within a segment, so what the run has found out
  -- about them still holds when it calls
  have hlaw : ∀ n, let m := Nat.repeat (step v i) n l
      m.started = l.started ∧ m.generation = l.generation ∧
        ∃ s, m.runs[i]? = some ⟨r.generation, s⟩ ∧ CallLaw l m r.generation s := by
    intro n
    induction n with
    | zero => exact ⟨rfl, rfl, r.stage, h, CallLaw.of_resting hrest⟩
    | succ n ih =>
      obtain ⟨hstarted, hgeneration, s, hs, hlaw⟩ := ih
      have hself := getElem?_step_self (v := v) hs
      have hnext := CallLaw.step (v := v) hs hstarted hgeneration hlaw
      exact ⟨step_started.trans hstarted, step_generation.trans hgeneration, _, hself, hnext⟩
  obtain ⟨-, -, s, -, hs⟩ := hlaw segmentSteps
  exact hs.calls

end Loop

/-! ## Events -/

/-- What happens to a loop when nothing comes in between. -/
inductive Event
  | command (c : Command)
  | segment (i : Nat) (v : View)
  | probesEnd (i : Nat) (results : List ProbeResult)
  | callEnds (i : Nat)
  | fire (t : Nat)

/-- How many steps the owner takes for a command. -/
def Command.steps : Command → Nat
  | .start => 4
  | .stop => 3
  | .update _ => 8

/-- The moves that an event is made of. -/
def Event.moves : Event → List Move
  | .command c => .command c :: List.replicate c.steps .owner
  | .segment i v => List.replicate Loop.segmentSteps (.run i v)
  | .probesEnd i results => [.probesEnd i results]
  | .callEnds i => [.callEnds i]
  | .fire t => [.fire t]

namespace Loop

variable {l : Loop} {v : View} {i : Nat} {r : Run}

/-- The owner does with the loop what it is told to. -/
def perform (l : Loop) : Command → Loop
  | .start => l.start
  | .stop => l.stop
  | .update settings => l.update settings

/-- The loop after an event. -/
def happen (l : Loop) : Event → Loop
  | .command c => l.perform c
  | .segment i v => l.segment v i
  | .probesEnd i results => l.probesEnd i results
  | .callEnds i => l.callEnds i
  | .fire t => l.fire t

/-- The loop after some events. -/
def afterEvents (l : Loop) (es : List Event) : Loop := es.foldl happen l

theorem afterEvents_cons (l : Loop) (e : Event) (es : List Event) :
    l.afterEvents (e :: es) = (l.happen e).afterEvents es := rfl

theorem afterEvents_induction {P : Loop → Prop} {l : Loop} (h : P l)
    (hhappen : ∀ m e, P m → P (m.happen e)) (es : List Event) : P (l.afterEvents es) := by
  induction es generalizing l with
  | nil => exact h
  | cons e es ih =>
    rw [afterEvents_cons]
    exact ih (hhappen l e h)

theorem after_replicate (x : Move) (n : Nat) :
    l.after (List.replicate n x) = Nat.repeat (·.move x) n l := by
  induction n with
  | zero => rfl
  | succ n ih =>
    rw [List.replicate_succ', after_concat, ih]
    rfl

/-- An event is a row of moves, if the owner is idle before it. -/
theorem happen_eq (hidle : l.control = .idle) (e : Event) : l.happen e = l.after e.moves := by
  cases e with
  | command c =>
    rw [Event.moves, after_cons, after_replicate, move, if_pos hidle]
    cases c <;> rfl
  | segment i v =>
    rw [Event.moves, after_replicate]
    rfl
  | probesEnd | callEnds | fire => rfl

/-! ## Commands -/

theorem start_eq : l.start =
    if l.settings.enable = true ∧ l.started = false then
      { l with
        started := true
        generation := l.generation + 1
        runs := l.runs ++ [⟨l.generation + 1, .entry⟩]
        control := .idle }
    else { l with control := .idle } := by
  cases he : l.settings.enable <;> cases hs : l.started <;>
    simp [start, Nat.repeat, controlStep, he, hs]

theorem stop_eq : l.stop =
    if l.started = true then
      { ({ l with started := false, generation := l.generation + 1 } : Loop).abort l.pending with
        pending := none
        control := .idle }
    else { l with control := .idle } := by
  cases hs : l.started with
  | false => simp [stop, Nat.repeat, controlStep, hs, afterStop]
  | true =>
    cases hp : l.pending <;>
      simp [stop, Nat.repeat, controlStep, hs, hp, afterStop, abort]

/-- New settings are given between a stop and a start. -/
theorem update_eq (settings : PeeringSettings) :
    l.update settings = ({ l.stop with settings } : Loop).start := by
  cases hs : l.started with
  | false =>
    cases he : settings.enable <;>
      simp [update, stop, start, Nat.repeat, controlStep, hs, afterStop, he]
  | true =>
    cases he : settings.enable <;> cases hp : l.pending <;>
      simp [update, stop, start, Nat.repeat, controlStep, hs, hp, he, afterStop, abort]

@[simp] theorem start_control : l.start.control = .idle := by
  rw [start_eq]
  split <;> rfl

@[simp] theorem stop_control : l.stop.control = .idle := by
  rw [stop_eq]
  split <;> rfl

@[simp] theorem perform_control (c : Command) : (l.perform c).control = .idle := by
  cases c with
  | start => exact start_control
  | stop => exact stop_control
  | update settings => rw [perform, update_eq]; exact start_control

@[simp] theorem perform_calls (c : Command) : (l.perform c).calls = l.calls := by
  -- whatever the command, it is a row of steps of the owner, who calls nobody
  have hrow : ∀ (m : Loop) (n : Nat), (Nat.repeat controlStep n m).calls = m.calls := by
    intro m n
    exact repeat_induction (P := fun k : Loop => k.calls = m.calls) rfl
      (fun _ hk => controlStep_calls.trans hk) n
  cases c <;> exact hrow _ _

/-- A stop leaves the loop off. -/
@[simp] theorem stop_started : l.stop.started = false := by
  rw [stop_eq]
  split
  · simp
  · next hon => exact Bool.eq_false_iff.mpr hon

@[simp] theorem stop_runs : l.stop.runs = l.runs := by
  rw [stop_eq]
  split
  · simp
  · rfl

/-- The runs after a command are those before it and perhaps one that is about to begin. -/
theorem mem_perform_runs {c : Command} (h : r ∈ (l.perform c).runs) :
    r ∈ l.runs ∨ r.stage = .entry := by
  have hstart : ∀ m : Loop, m.runs = l.runs → r ∈ m.start.runs → r ∈ l.runs ∨ r.stage = .entry := by
    intro m hm hr
    rw [start_eq] at hr
    split at hr
    · rcases List.mem_append.mp hr with hr | hr
      · exact Or.inl (hm ▸ hr)
      · rw [List.mem_singleton] at hr
        exact Or.inr (by rw [hr])
    · exact Or.inl (hm ▸ hr)
  cases c with
  | start => exact hstart l rfl h
  | stop => exact Or.inl (stop_runs ▸ h)
  | update settings =>
    rw [perform, update_eq] at h
    exact hstart { l.stop with settings } stop_runs h

end Loop

end MeshNode.Peering
