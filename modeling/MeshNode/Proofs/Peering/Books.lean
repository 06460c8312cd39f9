import MeshNode.Proofs.Peering.Silence

/-!
# The books of a loop

A loop notes each peer before it calls it: how many there have been, and which was
the last. Only the run that has made its choice touches these books.

* **one step** — `books_step`: an entry is made in two steps, the note and the call;
* **any interleaving** — `attempts_after`: the number noted is that of the calls and
  of the runs that stand between their note and their call;
* **segments** — `books_segment_of_resumed`: without interruption the two steps are
  one, so that the books balance after every event (`Balanced.afterEvents`).
-/

namespace MeshNode.Peering

/-- What a loop keeps about the peers that it calls, and the calls themselves. -/
structure Books where
  calls : List Url
  attempts : Nat
  lastCandidate : Option Url
deriving DecidableEq

namespace Books

/-- The entry that a run makes with its step at a stage. -/
def enter (b : Books) : Stage → Books
  | .record uri => { b with attempts := b.attempts + 1, lastCandidate := some uri }
  | .call uri => { b with calls := b.calls ++ [uri] }
  | _ => b

/-- The books after a peer was noted and called. -/
def called (b : Books) (uri : Url) : Books := ⟨b.calls ++ [uri], b.attempts + 1, some uri⟩

/-- Whether as many peers were noted as were called, the last of them last. -/
def Balanced (b : Books) : Prop :=
  b.attempts = b.calls.length ∧ b.lastCandidate = b.calls.getLast?

theorem Balanced.called {b : Books} (h : b.Balanced) (uri : Url) : (b.called uri).Balanced := by
  refine ⟨?_, List.getLast?_concat.symm⟩
  rw [Books.called, List.length_append, List.length_singleton, h.1]

end Books

/-- Whether a run has noted its choice and not called it yet. -/
def Stage.isNoted : Stage → Bool
  | .call _ => true
  | _ => false

/-- Whether a run at this stage makes no entry within its segment. -/
def Stage.isQuiet : Stage → Bool
  | .resumed _ => false
  | .resumedGeneration _ => false
  | .record _ => false
  | .call _ => false
  | _ => true

theorem Books.enter_of_isQuiet {b : Books} {s : Stage} (h : s.isQuiet = true) : b.enter s = b := by
  cases s with
  | record | call => exact absurd h Bool.false_ne_true
  | _ => rfl

namespace Loop

variable {l : Loop} {v : View} {i : Nat} {r : Run}

/-- The books of a loop. -/
def books (l : Loop) : Books := ⟨l.calls, l.attempts, l.lastCandidate⟩

/-- The runs that stand between their note and their call. -/
def uncalled (l : Loop) : Nat := l.runs.countP (·.stage.isNoted)

/-! ## One step -/

@[simp] theorem setStage_books (stage : Stage) : (l.setStage i stage).books = l.books := rfl

@[simp] theorem abort_books (t : Option Nat) : (l.abort t).books = l.books := by
  cases t <;> rfl

/-- A step of a run makes the entry of its stage. -/
theorem books_step (h : l.runs[i]? = some r) : (l.step v i).books = l.books.enter r.stage := by
  rw [step_eq h, setStage_books]
  obtain ⟨generation, stage⟩ := r
  cases stage with
  | look => simp only [effect]; split <;> rfl
  | replace timer =>
    show (l.abort l.pending).books = l.books
    rw [abort_books]
  | _ => rfl

@[simp] theorem controlStep_books : l.controlStep.books = l.books := by
  unfold controlStep
  cases l.control with
  | markStarted | markStopped => dsimp only; split <;> rfl
  | takePending =>
    show (l.abort l.pending).books = l.books
    rw [abort_books]
  | _ => rfl

theorem books_probesEnd (results : List ProbeResult) :
    (l.probesEnd i results).books = l.books := by
  rcases l.probesEnd_eq (i := i) results with he | ⟨g, n, -, he⟩ <;> rw [he]
  rfl

theorem books_callEnds : (l.callEnds i).books = l.books := by
  rcases l.callEnds_eq (i := i) with he | ⟨g, uri, -, he⟩ <;> rw [he]
  rfl

theorem books_fire (t : Nat) : (l.fire t).books = l.books := by
  rcases l.fire_eq t with he | ⟨g, d, -, he⟩ <;> rw [he]
  rfl

/-- Only a run at its note or its call changes the books. -/
theorem books_move (x : Move) :
    (l.move x).books = l.books ∨
      ∃ i v r, x = .run i v ∧ l.runs[i]? = some r ∧
        (l.move x).books = l.books.enter r.stage := by
  cases x with
  | command c => exact Or.inl (by simp only [move]; split <;> rfl)
  | owner => exact Or.inl controlStep_books
  | run i v =>
    cases hr : l.runs[i]? with
    | none => exact Or.inl (by rw [move, step_none hr])
    | some r => exact Or.inr ⟨i, v, r, rfl, hr, books_step hr⟩
  | probesEnd i results => exact Or.inl (books_probesEnd results)
  | callEnds i => exact Or.inl books_callEnds
  | fire t => exact Or.inl (books_fire t)

theorem attempts_move_le (l : Loop) (x : Move) : (l.move x).attempts ≤ l.attempts + 1 := by
  have henter : ∀ stage, (l.books.enter stage).attempts ≤ l.attempts + 1 := by
    intro stage
    cases stage with
    | record => exact Nat.le_refl _
    | _ => exact Nat.le_succ _
  show (l.move x).books.attempts ≤ l.attempts + 1
  rcases l.books_move x with heq | ⟨i, v, r, -, -, heq⟩
  · rw [heq]
    exact Nat.le_succ _
  · rw [heq]
    exact henter r.stage

/-! ## Any interleaving -/

/-- No more peers are noted than there are moves. -/
theorem attempts_after_le (ms : List Move) : (l.after ms).attempts ≤ l.attempts + ms.length :=
  after_le attempts_move_le l ms

/-- A run has noted its choice when it has just done so. -/
theorem isNoted_nextStage : (l.nextStage v r).isNoted =
    match r.stage with
    | .record _ => true
    | _ => false := by
  obtain ⟨g, stage⟩ := r
  cases stage with
  | look =>
    simp only [nextStage]
    split
    · rfl
    · split <;> rfl
  | resumedGeneration =>
    simp only [nextStage]
    split
    · split <;> rfl
    · rfl
  | entry | entryGeneration | resumed | closing | closingGeneration =>
    simp only [nextStage]
    split <;> rfl
  | _ => rfl

theorem uncalled_setStage (h : l.runs[i]? = some r) (stage : Stage) :
    (l.setStage i stage).uncalled + r.stage.isNoted.toNat = l.uncalled + stage.isNoted.toNat :=
  countP_modify h

theorem uncalled_step (h : l.runs[i]? = some r) :
    (l.step v i).uncalled + r.stage.isNoted.toNat =
      l.uncalled + (l.nextStage v r).isNoted.toNat := by
  have heffect : (l.effect v r).uncalled = l.uncalled := by rw [uncalled, effect_runs, uncalled]
  rw [step_eq h, ← heffect]
  exact uncalled_setStage (by rw [effect_runs, h]) _

/-- A run that begins has not noted anything. -/
theorem countP_isNoted_append {rs : List Run} (h : ∀ r ∈ rs, r.stage = .entry) :
    (l.runs ++ rs).countP (·.stage.isNoted) = l.uncalled := by
  have hnone : rs.countP (·.stage.isNoted) = 0 := by
    rw [List.countP_eq_zero]
    intro r hr
    rw [h r hr]
    exact Bool.false_ne_true
  rw [List.countP_append, hnone, uncalled, Nat.add_zero]

theorem uncalled_move {x : Move} (h : ∀ i v, x ≠ .run i v) :
    (l.move x).uncalled = l.uncalled := by
  cases x with
  | command c => simp only [move]; split <;> rfl
  | owner =>
    rw [uncalled, move, controlStep_runs]
    refine countP_isNoted_append ?_
    cases l.control <;> simp [Control.spawned]
  | run i v => exact absurd rfl (h i v)
  | probesEnd i results =>
    rcases l.probesEnd_eq (i := i) results with he | ⟨g, n, hr, he⟩ <;> rw [move, he]
    exact uncalled_setStage hr _
  | callEnds i =>
    rcases l.callEnds_eq (i := i) with he | ⟨g, uri, hr, he⟩ <;> rw [move, he]
    exact uncalled_setStage hr _
  | fire t =>
    rcases l.fire_eq t with he | ⟨g, d, -, he⟩ <;> rw [move, he]
    exact countP_isNoted_append (by simp)

/-- Whether as many peers were noted as were called or are about to be. -/
def Counted (l : Loop) : Prop := l.attempts = l.calls.length + l.uncalled

theorem Counted.step (h : l.Counted) (hr : l.runs[i]? = some r) : (l.step v i).Counted := by
  have hbooks := books_step (v := v) hr
  have huncalled := uncalled_step (v := v) hr
  rw [isNoted_nextStage] at huncalled
  have hattempts : (l.step v i).attempts = (l.books.enter r.stage).attempts := by rw [← hbooks]; rfl
  have hcalls : (l.step v i).calls = (l.books.enter r.stage).calls := by rw [← hbooks]; rfl
  unfold Counted at h ⊢
  rw [hattempts, hcalls]
  -- a note makes one more run stand before its call, and a call one less
  cases hs : r.stage with
  | record uri =>
    simp only [hs, Stage.isNoted, Bool.toNat_true, Bool.toNat_false, Books.enter, books]
      at huncalled ⊢
    omega
  | call uri =>
    simp only [hs, Stage.isNoted, Bool.toNat_true, Bool.toNat_false, Books.enter, books,
      List.length_append, List.length_singleton] at huncalled ⊢
    omega
  | _ =>
    simp only [hs, Stage.isNoted, Bool.toNat_false, Books.enter, books] at huncalled ⊢
    omega

theorem Counted.move (h : l.Counted) (x : Move) : (l.move x).Counted := by
  by_cases hx : ∃ i v, x = .run i v
  · obtain ⟨i, v, rfl⟩ := hx
    cases hr : l.runs[i]? with
    | none => rw [Loop.move, step_none hr]; exact h
    | some r => exact h.step hr
  · have hrun : ∀ i v, x ≠ .run i v := fun i v he => hx ⟨i, v, he⟩
    have hbooks : (l.move x).books = l.books := by
      rcases books_move (l := l) x with hsame | ⟨i, v, r, he, -, -⟩
      · exact hsame
      · exact absurd he (hrun i v)
    have hattempts : (l.move x).attempts = l.attempts := congrArg Books.attempts hbooks
    have hcalls : (l.move x).calls = l.calls := congrArg Books.calls hbooks
    rw [Counted, hattempts, hcalls, uncalled_move hrun]
    exact h

/-- Whatever the interleaving, the number noted is that of the calls and of the runs between their
note and their call. -/
theorem Counted.after (h : l.Counted) (ms : List Move) : (l.after ms).Counted :=
  after_induction h (fun _ x hm => hm.move x) ms

/-! ## Segments -/

theorem isQuiet_nextStage (h : r.stage.isQuiet = true) : (l.nextStage v r).isQuiet = true := by
  obtain ⟨g, stage⟩ := r
  cases stage with
  | look =>
    simp only [nextStage]
    split
    · rfl
    · split <;> rfl
  | entry | entryGeneration | closing | closingGeneration =>
    simp only [nextStage]
    split <;> rfl
  | limits | probing | calling | delay | arm | replace | ended => rfl
  | _ => exact absurd h Bool.false_ne_true

/-- A run that makes no entry goes on without one. -/
theorem books_repeat_of_isQuiet (h : l.runs[i]? = some r) (hquiet : r.stage.isQuiet = true)
    (n : Nat) : (Nat.repeat (step v i) n l).books = l.books := by
  have hlaw : ∀ n, let m := Nat.repeat (Loop.step v i) n l
      m.books = l.books ∧ ∃ s, m.runs[i]? = some ⟨r.generation, s⟩ ∧ s.isQuiet = true := by
    intro n
    induction n with
    | zero => exact ⟨rfl, r.stage, h, hquiet⟩
    | succ n ih =>
      obtain ⟨hbooks, s, hs, hq⟩ := ih
      have hself := getElem?_step_self (v := v) hs
      have hnext := isQuiet_nextStage (l := Nat.repeat (Loop.step v i) n l) (v := v)
        (r := ⟨r.generation, s⟩) hq
      refine ⟨?_, _, hself, hnext⟩
      exact (books_step hs).trans ((Books.enter_of_isQuiet hq).trans hbooks)
  exact (hlaw n).1

theorem repeat_step_succ (n : Nat) :
    Nat.repeat (step v i) (n + 1) l = Nat.repeat (step v i) n (l.step v i) := by
  induction n with
  | zero => rfl
  | succ n ih => exact congrArg (Loop.step v i) ih

/-- A run that has noted its choice calls it within its segment. -/
theorem books_repeat_of_record {g : Nat} {uri : Url} (h : l.runs[i]? = some ⟨g, .record uri⟩)
    (n : Nat) : (Nat.repeat (step v i) (n + 2) l).books = l.books.called uri := by
  have hnoted : (l.step v i).runs[i]? = some ⟨g, .call uri⟩ := getElem?_step_self h
  have hcalled : ((l.step v i).step v i).runs[i]? = some ⟨g, .calling uri⟩ :=
    getElem?_step_self hnoted
  rw [repeat_step_succ, repeat_step_succ, books_repeat_of_isQuiet hcalled rfl, books_step hnoted,
    books_step h]
  rfl

/-- A run that has its probes behind it calls the peer of its choice and notes it, if it belongs to
the present generation of a loop that is on. -/
theorem books_segment_of_resumed {g : Nat} {closest : List Url}
    (h : l.runs[i]? = some ⟨g, .resumed closest⟩) :
    (l.segment v i).books =
      if l.started = true ∧ l.generation = g then
        match l.choose? v.draw closest with
        | some uri => l.books.called uri
        | none => l.books
      else l.books := by
  have hfirst := getElem?_step_self (v := v) h
  have hbooks : (l.step v i).books = l.books := books_step h
  rw [segment, segmentSteps, repeat_step_succ]
  cases hon : l.started with
  | false =>
    simp only [nextStage, hon, Bool.false_eq_true, if_false] at hfirst
    rw [books_repeat_of_isQuiet hfirst rfl, hbooks]
    simp
  | true =>
    simp only [nextStage, hon, if_true] at hfirst
    have hsecond := getElem?_step_self (v := v) hfirst
    have hbooks' : ((l.step v i).step v i).books = l.books := (books_step hfirst).trans hbooks
    have hchoose : (l.step v i).choose? v.draw closest = l.choose? v.draw closest := by
      rw [step_eq h]
      rfl
    rw [repeat_step_succ]
    by_cases hg : l.generation = g
    · simp only [nextStage, step_generation, hg, if_true, hchoose] at hsecond
      rw [if_pos ⟨rfl, hg⟩]
      cases hc : l.choose? v.draw closest with
      | none =>
        rw [hc] at hsecond
        rw [books_repeat_of_isQuiet hsecond rfl, hbooks']
      | some uri =>
        rw [hc] at hsecond
        rw [books_repeat_of_record hsecond, hbooks']
    · simp only [nextStage, step_generation, hg, if_false] at hsecond
      rw [if_neg fun h => hg h.2, books_repeat_of_isQuiet hsecond rfl, hbooks']

/-- A segment that begins anywhere else makes no entry. -/
theorem books_segment_of_ne (hrest : ∀ r ∈ l.runs, r.stage.isResting = true)
    (h : ∀ g closest, l.runs[i]? ≠ some ⟨g, .resumed closest⟩) :
    (l.segment v i).books = l.books := by
  cases hr : l.runs[i]? with
  | none => rw [segment_none hr]
  | some r =>
    refine books_repeat_of_isQuiet hr ?_ segmentSteps
    have hresting := hrest r (List.mem_of_getElem? hr)
    obtain ⟨g, stage⟩ := r
    cases stage with
    | resumed closest => exact absurd hr (h g closest)
    | resumedGeneration | record | call => exact absurd hresting Bool.false_ne_true
    | _ => rfl

/-- An event makes no entry, or notes and calls one peer. -/
theorem books_happen (h : l.Settled) (e : Event) :
    (l.happen e).books = l.books ∨ ∃ uri, (l.happen e).books = l.books.called uri := by
  cases e with
  | command c =>
    -- whatever the command, it is a row of steps of the owner, who keeps no books
    have hrow : ∀ (m : Loop) (n : Nat), (Nat.repeat controlStep n m).books = m.books := by
      intro m n
      exact repeat_induction (P := fun k : Loop => k.books = m.books) rfl
        (fun _ hk => controlStep_books.trans hk) n
    cases c <;> exact Or.inl (hrow _ _)
  | segment i v =>
    by_cases hr : ∃ g closest, l.runs[i]? = some ⟨g, .resumed closest⟩
    · obtain ⟨g, closest, hr⟩ := hr
      rw [happen, books_segment_of_resumed hr]
      split
      · cases l.choose? v.draw closest with
        | none => exact Or.inl rfl
        | some uri => exact Or.inr ⟨uri, rfl⟩
      · exact Or.inl rfl
    · exact Or.inl (books_segment_of_ne h.resting fun g closest he => hr ⟨g, closest, he⟩)
  | probesEnd i results => exact Or.inl (books_probesEnd results)
  | callEnds i => exact Or.inl books_callEnds
  | fire t => exact Or.inl (books_fire t)

/-- The books balance after every history of events. -/
theorem balanced_afterEvents (catalog : List Url) (proxy : Option Proxy)
    (settings : PeeringSettings) (es : List Event) :
    ((fresh catalog proxy settings).afterEvents es).books.Balanced := by
  have hkept : ∀ l : Loop, l.Settled ∧ l.books.Balanced → ∀ e,
      (l.happen e).Settled ∧ (l.happen e).books.Balanced := by
    intro l ⟨hsettled, hbalanced⟩ e
    refine ⟨hsettled.happen e, ?_⟩
    rcases books_happen hsettled e with hsame | ⟨uri, hcalled⟩
    · rw [hsame]
      exact hbalanced
    · rw [hcalled]
      exact hbalanced.called uri
  exact (afterEvents_induction (P := fun l => l.Settled ∧ l.books.Balanced)
    ⟨settled_fresh catalog proxy settings, rfl, rfl⟩ (fun l e h => hkept l h e) es).2

end Loop

end MeshNode.Peering
