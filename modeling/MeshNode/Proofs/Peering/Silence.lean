import MeshNode.Proofs.Peering.Segments

/-!
# One loop, and silence after a stop

While runs, timers and the owner take turns, whole segments and whole commands at
a time, the present generation never has more than one run or waiting timer, only
its run may call a peer, and a run that was begun before a stop calls nobody after
it.

* **between events** — `Settled`: the owner is idle and every run rests;
* **older runs** — `OldRun.afterEvents`, `oldRun_of_isStop`: a stop makes every
  run one of an older generation, and it stays one;
* **the law** — `one_loop_and_silence`.
-/

namespace MeshNode.Peering

/-- Whether a command stops the loop, perhaps to start it again at once. -/
def Command.isStop : Command → Bool
  | .start => false
  | .stop => true
  | .update _ => true

namespace Loop

variable {l : Loop} {v : View} {i : Nat} {r : Run}

/-! ## Between events -/

/-- How a loop is between two events. -/
structure Settled (l : Loop) : Prop where
  orderly : l.Orderly
  idle : l.control = .idle
  resting : ∀ r ∈ l.runs, r.stage.isResting = true

theorem settled_fresh (catalog : List Url) (proxy : Option Proxy) (settings : PeeringSettings) :
    (fresh catalog proxy settings).Settled where
  orderly := orderly_fresh catalog proxy settings
  idle := rfl
  resting _ h := absurd h List.not_mem_nil

theorem resting_setStage (h : ∀ r ∈ l.runs, r.stage.isResting = true) {stage : Stage}
    (hstage : stage.isResting = true) :
    ∀ r ∈ (l.setStage i stage).runs, r.stage.isResting = true := by
  intro r hr
  obtain ⟨j, hj⟩ := List.getElem?_of_mem hr
  rw [getElem?_setStage] at hj
  obtain ⟨r', hr', rfl⟩ := Option.map_eq_some_iff.mp hj
  split
  · exact hstage
  · exact h r' (List.mem_of_getElem? hr')

theorem resting_segment (h : ∀ r ∈ l.runs, r.stage.isResting = true) :
    ∀ r ∈ (l.segment v i).runs, r.stage.isResting = true := by
  intro r hr
  obtain ⟨j, hj⟩ := List.getElem?_of_mem hr
  by_cases hij : i = j
  · subst hij
    cases hi : l.runs[i]? with
    | none =>
      rw [segment_none hi] at hr
      exact h r hr
    | some r' =>
      obtain ⟨s, hs, hrank⟩ := rank_segment (v := v) hi
      rw [hs] at hj
      cases hj
      exact Stage.isResting_of_rank hrank
  · rw [getElem?_segment_of_ne hij] at hj
    exact h r (List.mem_of_getElem? hj)

theorem happen_control (hidle : l.control = .idle) (e : Event) : (l.happen e).control = .idle := by
  cases e with
  | command c => exact perform_control c
  | segment i v =>
    exact repeat_induction (P := fun m : Loop => m.control = .idle) hidle
      (fun _ hm => step_control.trans hm) segmentSteps
  | probesEnd i results =>
    exact (agrees_of_isOutside (x := .probesEnd i results) rfl).control.trans hidle
  | callEnds i => exact (agrees_of_isOutside (x := .callEnds i) rfl).control.trans hidle
  | fire t => exact (agrees_of_isOutside (x := .fire t) rfl).control.trans hidle

theorem Settled.happen (h : l.Settled) (e : Event) : (l.happen e).Settled where
  orderly := by
    rw [happen_eq h.idle e]
    exact h.orderly.after e.moves
  idle := happen_control h.idle e
  resting := by
    cases e with
    | command c =>
      intro r hr
      rcases mem_perform_runs hr with hr | hr
      · exact h.resting r hr
      · rw [hr]
        rfl
    | segment i v => exact resting_segment h.resting
    | probesEnd i results =>
      rcases l.probesEnd_eq (i := i) results with he | ⟨g, n, -, he⟩ <;> rw [Loop.happen, he]
      · exact h.resting
      · exact resting_setStage h.resting rfl
    | callEnds i =>
      rcases l.callEnds_eq (i := i) with he | ⟨g, uri, -, he⟩ <;> rw [Loop.happen, he]
      · exact h.resting
      · exact resting_setStage h.resting rfl
    | fire t =>
      rcases l.fire_eq t with he | ⟨g, d, -, he⟩ <;> rw [Loop.happen, he]
      · exact h.resting
      · intro r hr
        rcases List.mem_append.mp hr with hr | hr
        · exact h.resting r hr
        · rw [List.mem_singleton] at hr
          rw [hr]
          rfl

theorem Settled.afterEvents (h : l.Settled) (es : List Event) : (l.afterEvents es).Settled :=
  afterEvents_induction h (fun _ e hm => hm.happen e) es

theorem settled_afterEvents (catalog : List Url) (proxy : Option Proxy)
    (settings : PeeringSettings) (es : List Event) :
    ((fresh catalog proxy settings).afterEvents es).Settled :=
  (settled_fresh catalog proxy settings).afterEvents es

/-- Events are moves. -/
theorem Settled.exists_moves (h : l.Settled) (es : List Event) :
    ∃ ms, l.afterEvents es = l.after ms := by
  induction es generalizing l with
  | nil => exact ⟨[], rfl⟩
  | cons e es ih =>
    obtain ⟨ms, hms⟩ := ih (h.happen e)
    refine ⟨e.moves ++ ms, ?_⟩
    rw [afterEvents_cons, hms, after_append, happen_eq h.idle e]

/-! ## Older runs -/

/-- Whether a run belongs to an older generation. -/
def OldRun (l : Loop) (i : Nat) : Prop :=
  ∃ r, l.runs[i]? = some r ∧ r.generation < l.generation

theorem OldRun.afterEvents (hold : l.OldRun i) (h : l.Settled) (es : List Event) :
    (l.afterEvents es).OldRun i := by
  obtain ⟨r, hr, hlt⟩ := hold
  obtain ⟨ms, hms⟩ := h.exists_moves es
  obtain ⟨s, hs⟩ := exists_run_after hr ms
  rw [hms]
  exact ⟨_, hs, Nat.lt_of_lt_of_le hlt (generation_le_after ms)⟩

/-- While the loop is off, all its runs are old. -/
theorem Settled.oldRun_of_off (h : l.Settled) (hoff : l.started = false)
    (hr : l.runs[i]? = some r) : l.OldRun i := by
  have hmem : r.generation ∈ l.generations := mem_generations_of_run hr
  have hvacant : l.generation ∉ l.generations := h.orderly.off_vacant hoff (by rw [h.idle]; rfl)
  have hne : r.generation ≠ l.generation := fun he => hvacant (he ▸ hmem)
  exact ⟨r, hr, Nat.lt_of_le_of_ne (h.orderly.bounded _ hmem) hne⟩

/-- A stop makes all runs old. -/
theorem oldRun_of_isStop (h : l.Settled) {c : Command} (hc : c.isStop = true)
    (hr : l.runs[i]? = some r) : (l.perform c).OldRun i := by
  have hstop : l.stop.Settled := h.happen (.command .stop)
  have hstopped : l.stop.OldRun i := hstop.oldRun_of_off stop_started (stop_runs ▸ hr)
  cases c with
  | start => exact absurd hc Bool.false_ne_true
  | stop => exact hstopped
  | update settings =>
    have hsettings : ({ l.stop with settings } : Loop).Settled :=
      ⟨hstop.orderly.of_same rfl rfl rfl (fun _ => Iff.rfl) (Nat.le_refl _), hstop.idle,
        hstop.resting⟩
    have hold : ({ l.stop with settings } : Loop).OldRun i := hstopped
    rw [perform, update_eq]
    exact hold.afterEvents hsettings [.command .start]

theorem OldRun.segment (hold : l.OldRun i) (h : l.Settled) :
    ∃ r, l.runs[i]? = some r ∧ r.generation ≠ l.generation ∧
      l.segment v i = if r.stage.isWaiting then l else l.setStage i .ended := by
  obtain ⟨r, hr, hlt⟩ := hold
  have hne : r.generation ≠ l.generation := Nat.ne_of_lt hlt
  exact ⟨r, hr, hne, segment_of_old hr hne (h.resting r (List.mem_of_getElem? hr))⟩

/-! ## The law -/

/-- The runs of the present generation that have not ended. -/
def liveRuns (l : Loop) : Nat :=
  l.runs.countP fun r => decide (r.generation = l.generation ∧ r.stage ≠ .ended)

/-- The timers of the present generation that are still to fire. -/
def waitingTimers (l : Loop) : Nat :=
  l.timers.countP fun t => decide (t.generation = l.generation ∧ t.status = .waiting)

/-- Between events the tokens are the live runs and the waiting timers. -/
theorem Settled.tokens_eq (h : l.Settled) : l.tokens = l.liveRuns + l.waitingTimers := by
  have hruns : l.runs.countP (·.keeps l.generation) = l.liveRuns := by
    refine List.countP_congr fun r hr => ?_
    have hrest := h.resting r hr
    cases hs : r.stage <;> simp_all [Run.keeps, Stage.owesTimer, Stage.isResting]
  have htimers : l.timers.countP (·.keeps l.generation) = l.waitingTimers :=
    List.countP_congr fun t _ => by simp [Timer.keeps]
  rw [tokens, hruns, htimers]

theorem calls_happen (h : l.Settled) (e : Event) :
    (l.happen e).calls = l.calls ∨
      ∃ i v r uri, e = .segment i v ∧ l.runs[i]? = some r ∧ l.started = true ∧
        r.generation = l.generation ∧ (l.happen e).calls = l.calls ++ [uri] := by
  cases e with
  | command c => exact Or.inl (perform_calls c)
  | segment i v =>
    cases hr : l.runs[i]? with
    | none => exact Or.inl (by rw [happen, segment_none hr])
    | some r =>
      rcases calls_segment (v := v) hr (h.resting r (List.mem_of_getElem? hr)) with
        hsame | ⟨hon, hg, uri, hcalls⟩
      · exact Or.inl hsame
      · exact Or.inr ⟨i, v, r, uri, rfl, hr, hon, hg, hcalls⟩
  | probesEnd i results => exact Or.inl (agrees_of_isOutside (x := .probesEnd i results) rfl).calls
  | callEnds i => exact Or.inl (agrees_of_isOutside (x := .callEnds i) rfl).calls
  | fire t => exact Or.inl (agrees_of_isOutside (x := .fire t) rfl).calls

/-- After every history of events: a call begins only in a segment of a run of the present
generation while the loop is on; a run begun before a stop makes no call after it, whatever
follows; the present generation has at most one live run or waiting timer; and a run of an older
generation, from then on, changes nothing but its own stage and ends with its next segment unless
it waits. -/
theorem one_loop_and_silence (catalog : List Url) (proxy : Option Proxy)
    (settings : PeeringSettings) (es : List Event) :
    let l := (fresh catalog proxy settings).afterEvents es
    (∀ e, (l.happen e).calls = l.calls ∨
      ∃ i v r uri, e = .segment i v ∧ l.runs[i]? = some r ∧ l.started = true ∧
        r.generation = l.generation ∧ (l.happen e).calls = l.calls ++ [uri]) ∧
    (∀ c, c.isStop = true → ∀ i r, l.runs[i]? = some r → ∀ es' v,
      let m := (l.perform c).afterEvents es'
      (m.segment v i).calls = m.calls) ∧
    l.liveRuns + l.waitingTimers ≤ 1 ∧
    (∀ i r, l.runs[i]? = some r → r.generation ≠ l.generation → ∀ es' v,
      let m := l.afterEvents es'
      ∃ s, m.runs[i]? = some ⟨r.generation, s⟩ ∧ r.generation ≠ m.generation ∧
        m.segment v i = if s.isWaiting then m else m.setStage i .ended) := by
  intro l
  have h : l.Settled := settled_afterEvents catalog proxy settings es
  refine ⟨calls_happen h, ?_, ?_, ?_⟩
  · -- the stop makes the run old, and old runs change no calls
    intro c hc i r hr es' v m
    have hperform : (l.perform c).Settled := h.happen (.command c)
    have hold : m.OldRun i := (oldRun_of_isStop h hc hr).afterEvents hperform es'
    obtain ⟨r', -, -, hm⟩ := hold.segment (v := v) (hperform.afterEvents es')
    rw [hm]
    split <;> rfl
  · rw [← h.tokens_eq]
    exact h.orderly.single
  · intro i r hr hne es' v m
    have hle : r.generation ≤ l.generation := h.orderly.bounded _ (mem_generations_of_run hr)
    have hold : l.OldRun i := ⟨r, hr, Nat.lt_of_le_of_ne hle hne⟩
    obtain ⟨r', hr', hne', hm⟩ := (hold.afterEvents h es').segment (v := v) (h.afterEvents es')
    obtain ⟨ms, hms⟩ := h.exists_moves es'
    obtain ⟨s, hs⟩ := exists_run_after hr ms
    -- the run has kept its generation
    have hsame : r' = ⟨r.generation, s⟩ := by
      rw [← hms] at hs
      exact Option.some.inj (hr'.symm.trans hs)
    subst hsame
    exact ⟨s, hr', hne', hm⟩

/-- A loop whose first run waits for its probes. -/
def midProbe : Loop :=
  (fresh [] none { enable := true }).afterEvents
    [.command .start, .segment 0 ⟨.zero, .zero, [], firstPositions⟩]

/-- The result of a round of probes is of no use after a stop, even when a start follows. -/
theorem silent_after_restart :
    let results : List ProbeResult := [⟨⟨"tcp", none, .plain "", none, none⟩, true, .zero⟩]
    let m := (midProbe.perform .stop).afterEvents [.command .start, .probesEnd 0 results]
    midProbe.runs[0]? = some ⟨1, .probing 10⟩ ∧ Command.stop.isStop = true ∧
      (m.segment ⟨.zero, .zero, [], firstPositions⟩ 0).calls = [] := by
  intro results m
  have hrun : midProbe.runs[0]? = some ⟨1, .probing 10⟩ := rfl
  have hlaw := one_loop_and_silence [] none { enable := true }
    [.command .start, .segment 0 ⟨.zero, .zero, [], firstPositions⟩]
  exact ⟨hrun, rfl, hlaw.2.1 .stop rfl 0 _ hrun _ _⟩

end Loop

end MeshNode.Peering
