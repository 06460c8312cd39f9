import MeshNode.Advertiser.Pipeline

/-!
# Triggers

The listener drops its trigger when the queue is full, the pacer waits for room, and the
sender may be busy when either of them comes. In any order of their steps no trigger is
lost and none is made up.

* **conservation** — `flow_step`, `flow_after`: what a step puts into the queue, what it
  takes out, and what becomes of it;
* **the trigger of a solicitation** — `queued_after_solicitation`: it waits until the
  sender takes it;
* **both** — `triggers_conserved`.
-/

namespace MeshNode.Advertiser

/-! ## The queue -/

namespace TriggerQueue

variable {q q' : TriggerQueue}

theorem push_of_full (h : q.isFull = true) : q.push = q := if_pos h

theorem queued_push (q : TriggerQueue) :
    q.push.queued = q.queued + if q.isFull then 0 else 1 := by
  unfold push
  split <;> rfl

@[simp] theorem push_closed (q : TriggerQueue) : q.push.closed = q.closed := by
  unfold push
  split <;> rfl

@[simp] theorem push_capacity (q : TriggerQueue) : q.push.capacity = q.capacity := by
  unfold push
  split <;> rfl

theorem pop?_eq_some (h : q.pop? = some q') :
    q.queued = q'.queued + 1 ∧ q' = { q with queued := q'.queued } := by
  unfold pop? at h
  split at h
  · cases h
  · next hne =>
    cases h
    exact ⟨(Nat.succ_pred_eq_of_ne_zero hne).symm, rfl⟩

end TriggerQueue

/-- How many sends have ended. -/
def Stats.sends (s : Stats) : Nat := s.advertisements + s.sendErrors

namespace Pipeline

variable {p p' : Pipeline} {e : Event} {es : List Event}

/-- The pipeline after some steps, if each can come when its turn is. -/
def after? (p : Pipeline) : List Event → Option Pipeline
  | [] => some p
  | e :: es => (p.step? e).bind fun p' => p'.after? es

/-- How many sends are in progress. -/
def inHand (p : Pipeline) : Nat := if p.sender = .sending then 1 else 0

/-- How many triggers a step puts in. -/
def posts (p : Pipeline) : Event → Nat
  | .received (.datagram d) => if Listener.asks d ∧ ¬ p.queue.isFull then 1 else 0
  | .pacerPosts => 1
  | _ => 0

/-- How many triggers some steps put in. -/
def posted (p : Pipeline) : List Event → Nat
  | [] => 0
  | e :: es => p.posts e + match p.step? e with
    | some p' => p'.posted es
    | none => 0

/-- How many triggers a step takes out. -/
def takes (e : Event) : Nat := if e = .senderTakes then 1 else 0

/-- Whether a step accepts a solicitation. -/
def accepts : Event → Bool
  | .received (.datagram d) => Listener.asks d
  | _ => false

/-- How many solicitations some steps accept. -/
def accepted (es : List Event) : Nat := es.countP accepts

theorem accepted_cons (e : Event) (es : List Event) :
    accepted (e :: es) = accepted [e] + accepted es := by
  show ([e] ++ es).countP accepts = _
  exact List.countP_append

theorem accepted_of_asks {d : Datagram} (h : Listener.asks d = true) :
    accepted [.received (.datagram d)] = 1 := by
  have haccepts : accepts (.received (.datagram d)) = true := h
  rw [accepted, List.countP_cons_of_pos haccepts, List.countP_nil]

theorem accepted_of_not_asks {d : Datagram} (h : ¬ Listener.asks d = true) :
    accepted [.received (.datagram d)] = 0 := by
  have haccepts : ¬ accepts (.received (.datagram d)) = true := h
  rw [accepted, List.countP_cons_of_neg haccepts, List.countP_nil]

/-! ## Steps -/

/-- Nothing has ended, and the queue is what it was made as. -/
structure Alive (p : Pipeline) : Prop where
  isOpen : p.queue.closed = false
  room : p.queue.capacity = capacity
  bounded : p.queue.queued ≤ capacity
  sender : p.sender ≠ .finished

theorem alive_start (packet : List UInt8) (stats : Stats) : (start packet stats).Alive :=
  ⟨rfl, rfl, Nat.zero_le _, nofun⟩

theorem Alive.isFull_iff (h : p.Alive) : p.queue.isFull = true ↔ p.queue.queued = 1 := by
  have hbounded : p.queue.queued ≤ 1 := h.bounded
  have hfull : p.queue.isFull = true ↔ 1 ≤ p.queue.queued := by
    rw [TriggerQueue.isFull, h.room]
    exact decide_eq_true_iff
  rw [hfull]
  omega

theorem Alive.push (h : p.Alive) : p.queue.push.queued ≤ capacity := by
  have hbounded : p.queue.queued ≤ 1 := h.bounded
  by_cases hfull : p.queue.isFull = true
  · rw [TriggerQueue.push_of_full hfull]
    exact hbounded
  · rw [TriggerQueue.queued_push, if_neg hfull, capacity]
    rw [h.isFull_iff] at hfull
    omega

/-- A pipeline before and after a step: where triggers have come from and gone to. -/
structure Flow (p p' : Pipeline) (e : Event) : Prop where
  alive : p'.Alive
  queue : p'.queue.queued + takes e = p.queue.queued + p.posts e
  sends : p'.stats.sends + p'.inHand = p.stats.sends + p.inHand + takes e
  solicited : p'.stats.solicitations = p.stats.solicitations + accepted [e]

theorem flow_received (hp : p.Alive) (r : Received) :
    Flow p (p.withListener (p.listenerState.receive r)) (.received r) := by
  cases r with
  | failure => exact ⟨⟨hp.isOpen, hp.room, hp.bounded, hp.sender⟩, rfl, rfl, rfl⟩
  | datagram d =>
    by_cases hasks : Listener.asks d = true
    · have hreceive : p.listenerState.receive (.datagram d) =
          ⟨.receiving, { p.stats with solicitations := p.stats.solicitations + 1 },
            p.queue.push⟩ := by
        simp only [Listener.State.receive, hasks, listenerState, hp.isOpen, if_true,
          Bool.false_eq_true, if_false]
      rw [hreceive]
      refine ⟨⟨?_, ?_, hp.push, hp.sender⟩, ?_, rfl, ?_⟩
      · exact (TriggerQueue.push_closed _).trans hp.isOpen
      · exact (TriggerQueue.push_capacity _).trans hp.room
      · show p.queue.push.queued + 0 = _
        rw [TriggerQueue.queued_push, posts]
        by_cases hfull : p.queue.isFull = true <;> simp [hasks, hfull]
      · rw [accepted_of_asks hasks]
        rfl
    · have hreceive : p.listenerState.receive (.datagram d) = p.listenerState := by
        rw [Listener.State.receive, if_neg hasks]
      rw [hreceive]
      refine ⟨⟨hp.isOpen, hp.room, hp.bounded, hp.sender⟩, ?_, rfl, ?_⟩
      · rw [posts, if_neg fun h => hasks h.1]
        rfl
      · rw [accepted_of_not_asks hasks]
        rfl

theorem flow_pacerPosts (hp : p.Alive) (hroom : p.queue.isFull = false) :
    Flow p { p with pacerDue := false, queue := p.queue.push } .pacerPosts := by
  refine ⟨⟨?_, ?_, hp.push, hp.sender⟩, ?_, rfl, rfl⟩
  · exact (TriggerQueue.push_closed _).trans hp.isOpen
  · exact (TriggerQueue.push_capacity _).trans hp.room
  · show p.queue.push.queued + 0 = _
    rw [TriggerQueue.queued_push, hroom]
    rfl

theorem flow_senderTakes {q : TriggerQueue} (hp : p.Alive) (hwaiting : p.sender = .waiting)
    (hq : p.queue.pop? = some q) : Flow p (p.withSender p.senderState.take) .senderTakes := by
  obtain ⟨hqueued, hsame⟩ := TriggerQueue.pop?_eq_some hq
  have htake : p.senderState.take = ⟨.sending, p.stats, q, true⟩ := by
    rw [Sender.State.take, senderState, hwaiting]
    simp only [hq]
  rw [htake]
  refine ⟨⟨?_, ?_, ?_, nofun⟩, hqueued.symm, ?_, rfl⟩
  · show q.closed = false
    rw [hsame]
    exact hp.isOpen
  · show q.capacity = capacity
    rw [hsame]
    exact hp.room
  · exact Nat.le_trans (hqueued ▸ Nat.le_succ _) hp.bounded
  · rw [inHand, inHand, hwaiting]
    rfl

theorem flow_sendEnds (hp : p.Alive) (hsending : p.sender = .sending) (success : Bool) :
    Flow p (p.withSender (p.senderState.sent success)) (.sendEnds success) := by
  have hsent : p.senderState.sent success = { p.senderState with
      phase := .waiting
      stats := if success then { p.stats with advertisements := p.stats.advertisements + 1 }
        else { p.stats with sendErrors := p.stats.sendErrors + 1 } } := by
    rw [Sender.State.sent, senderState, hsending]
  rw [hsent]
  refine ⟨⟨hp.isOpen, hp.room, hp.bounded, nofun⟩, rfl, ?_, ?_⟩
  · rw [inHand, inHand, hsending]
    cases success
    · rfl
    · exact Nat.add_right_comm p.stats.advertisements 1 p.stats.sendErrors
  · cases success <;> rfl

theorem flow_step (hp : p.Alive) (h : p.step? e = some p') : Flow p p' e := by
  cases e with
  | received r =>
    simp only [step?] at h
    split at h
    · cases h
      exact flow_received hp r
    · cases h
  | backOffEnds =>
    simp only [step?] at h
    split at h
    · next hphase =>
      cases h
      have hresume : p.listenerState.resume = ⟨.receiving, p.stats, p.queue⟩ := by
        rw [Listener.State.resume, listenerState, hphase]
      rw [hresume]
      exact ⟨⟨hp.isOpen, hp.room, hp.bounded, hp.sender⟩, rfl, rfl, rfl⟩
    · cases h
  | pacerWakes =>
    simp only [step?] at h
    split at h
    · cases h
    · cases h
      exact ⟨⟨hp.isOpen, hp.room, hp.bounded, hp.sender⟩, rfl, rfl, rfl⟩
  | pacerPosts =>
    simp only [step?] at h
    split at h
    · next hdue =>
      cases h
      rw [Bool.and_eq_true, Bool.not_eq_true'] at hdue
      exact flow_pacerPosts hp hdue.2
    · cases h
  | senderTakes =>
    simp only [step?] at h
    split at h
    · next hwaiting =>
      obtain ⟨q, hq, rfl⟩ := Option.map_eq_some_iff.mp h
      exact flow_senderTakes hp hwaiting hq
    · cases h
  | sendEnds success =>
    simp only [step?] at h
    split at h
    · next hsending =>
      cases h
      exact flow_sendEnds hp hsending success
    · cases h

/-! ## Histories -/

theorem after?_append (p : Pipeline) (es es' : List Event) :
    p.after? (es ++ es') = (p.after? es).bind fun p' => p'.after? es' := by
  induction es generalizing p with
  | nil => rfl
  | cons e es ih =>
    rw [List.cons_append, after?, after?, Option.bind_assoc]
    exact congrArg _ (funext ih)

theorem posts_le (p : Pipeline) (e : Event) :
    p.posts e ≤ accepted [e] + [e].count .pacerPosts := by
  unfold posts
  split
  · split
    · next hasks =>
      rw [accepted_of_asks hasks.1]
      exact Nat.le_add_right _ _
    · exact Nat.zero_le _
  · exact Nat.le_refl _
  · exact Nat.zero_le _

/-- The trigger of a solicitation that was dropped has another one before it. -/
theorem posted_le (p : Pipeline) (es : List Event) :
    p.posted es ≤ accepted es + es.count .pacerPosts := by
  induction es generalizing p with
  | nil => exact Nat.le_refl _
  | cons e es ih =>
    have hfirst := p.posts_le e
    have hrest : (match p.step? e with
        | some p' => p'.posted es
        | none => 0) ≤ accepted es + es.count .pacerPosts := by
      split
      · exact ih _
      · exact Nat.zero_le _
    have hcount : ([e] ++ es).count .pacerPosts = [e].count .pacerPosts + es.count .pacerPosts :=
      List.count_append
    rw [List.singleton_append] at hcount
    rw [posted, hcount, accepted_cons]
    omega

/-- A pipeline before and after some steps. -/
structure Flows (p p' : Pipeline) (es : List Event) : Prop where
  alive : p'.Alive
  queue : p'.queue.queued + es.count .senderTakes = p.queue.queued + p.posted es
  sends : p'.stats.sends + p'.inHand = p.stats.sends + p.inHand + es.count .senderTakes
  solicited : p'.stats.solicitations = p.stats.solicitations + accepted es

theorem flows_after (hp : p.Alive) (h : p.after? es = some p') : Flows p p' es := by
  induction es generalizing p with
  | nil =>
    cases h
    exact ⟨hp, rfl, rfl, rfl⟩
  | cons e es ih =>
    obtain ⟨p₁, hstep, hrest⟩ := Option.bind_eq_some_iff.mp h
    have hflow := flow_step hp hstep
    have hflows := ih hflow.alive hrest
    have htakes : (e :: es).count .senderTakes = takes e + es.count .senderTakes := by
      rw [List.count_cons, Nat.add_comm, takes]
      simp
    have hposted : p.posted (e :: es) = p.posts e + p₁.posted es := by
      rw [posted, hstep]
    refine ⟨hflows.alive, ?_, ?_, ?_⟩
    · have hfirst := hflow.queue
      have hthen := hflows.queue
      rw [htakes, hposted]
      omega
    · have hfirst := hflow.sends
      have hthen := hflows.sends
      rw [htakes]
      omega
    · have hfirst := hflow.solicited
      have hthen := hflows.solicited
      rw [accepted_cons]
      omega

/-! ## The trigger of a solicitation -/

/-- The sender can take a trigger, and then begins a send. -/
def CanSend (p : Pipeline) : Prop :=
  ∃ p', p.step? .senderTakes = some p' ∧ p'.sender = .sending ∧ p'.packet = p.packet

theorem canSend_of_waiting (hp : p.sender = .waiting) (hq : p.queue.queued ≠ 0) : p.CanSend := by
  have hpop : p.queue.pop? = some { p.queue with queued := p.queue.queued - 1 } := if_neg hq
  refine ⟨p.withSender p.senderState.take, ?_, ?_, rfl⟩
  · rw [step?, hp]
    simp only [hpop]
    rfl
  · show p.senderState.take.phase = _
    rw [Sender.State.take, senderState, hp]
    simp only [hpop]

/-- A send that begins from now on is still to come: the queue holds its trigger, which the sender
can take now or when the send in progress has ended, in whatever way that ends. -/
structure SendToCome (p : Pipeline) : Prop where
  queued : p.queue.queued = 1
  next : p.CanSend ∨ ∀ success, ∃ p', p.step? (.sendEnds success) = some p' ∧ p'.CanSend

theorem sendToCome_of_queued (hp : p.Alive) (hq : p.queue.queued = 1) : p.SendToCome := by
  refine ⟨hq, ?_⟩
  have hne : p.queue.queued ≠ 0 := by
    rw [hq]
    exact Nat.one_ne_zero
  cases hsender : p.sender with
  | waiting => exact Or.inl (canSend_of_waiting hsender hne)
  | sending =>
    refine Or.inr fun success => ⟨p.withSender (p.senderState.sent success), ?_, ?_⟩
    · rw [step?, hsender]
    · apply canSend_of_waiting
      · show (p.senderState.sent success).phase = _
        rw [Sender.State.sent, senderState, hsender]
      · show (p.senderState.sent success).queue.queued ≠ 0
        rw [Sender.State.sent, senderState, hsender]
        exact hne
  | finished => exact absurd hsender hp.sender

/-- A solicitation finds a trigger in the queue or puts one in. -/
theorem queued_of_solicitation {d : Datagram} (hp : p.Alive) (hasks : Listener.asks d = true)
    (h : p.step? (.received (.datagram d)) = some p') : p'.queue.queued = 1 := by
  have hflow := flow_step hp h
  have hqueue : p'.queue.queued + 0 = p.queue.queued + p.posts (.received (.datagram d)) :=
    hflow.queue
  have hbounded : p'.queue.queued ≤ 1 := hflow.alive.bounded
  have hfull := hp.isFull_iff
  by_cases hqueued : p.queue.isFull = true
  · rw [hfull] at hqueued
    omega
  · rw [posts, if_pos ⟨hasks, hqueued⟩] at hqueue
    omega

/-- A trigger stays in the queue until the sender takes it. -/
theorem queued_of_not_taken (hp : p.Alive) (hq : p.queue.queued = 1)
    (h : p.after? es = some p') (htakes : .senderTakes ∉ es) : p'.queue.queued = 1 := by
  have hflows := flows_after hp h
  have hqueue := hflows.queue
  have hbounded : p'.queue.queued ≤ 1 := hflows.alive.bounded
  rw [List.count_eq_zero.mpr htakes] at hqueue
  omega

/-- From the start of a pipeline on, in any order of its steps: the triggers that were put in are
those of the sends that have ended, that in progress and those in the queue; the sender begins
no more sends than there were solicitations and unsolicited triggers; and after a solicitation
a send is still to come as long as the sender has not taken a trigger. -/
theorem triggers_conserved (packet : List UInt8) (stats : Stats) (es : List Event) (p : Pipeline)
    (h : (start packet stats).after? es = some p) :
    (start packet stats).posted es + stats.sends =
        p.stats.sends + p.queue.queued + p.inHand ∧
      es.count .senderTakes + stats.sends = p.stats.sends + p.inHand ∧
      es.count .senderTakes + stats.solicitations ≤
        p.stats.solicitations + es.count .pacerPosts ∧
      ∀ fs d gs, es = fs ++ .received (.datagram d) :: gs → Listener.asks d = true →
        .senderTakes ∉ gs → p.SendToCome := by
  have halive := alive_start packet stats
  have hflows := flows_after halive h
  have hqueue : p.queue.queued + es.count .senderTakes = 0 + (start packet stats).posted es :=
    hflows.queue
  have hsends : p.stats.sends + p.inHand = stats.sends + 0 + es.count .senderTakes := hflows.sends
  have hsolicited : p.stats.solicitations = stats.solicitations + accepted es := hflows.solicited
  have hposted := (start packet stats).posted_le es
  refine ⟨by omega, by omega, by omega, ?_⟩
  rintro fs d gs rfl hasks htakes
  rw [after?_append] at h
  obtain ⟨p₁, hbefore, hstep⟩ := Option.bind_eq_some_iff.mp h
  obtain ⟨p₂, hreceived, hafter⟩ := Option.bind_eq_some_iff.mp hstep
  have hp₁ := (flows_after halive hbefore).alive
  have hp₂ := (flow_step hp₁ hreceived).alive
  have hqueued := queued_of_solicitation hp₁ hasks hreceived
  exact sendToCome_of_queued hflows.alive (queued_of_not_taken hp₂ hqueued hafter htakes)

/-- A Router Solicitation from the link. -/
def solicitation : Datagram := ⟨[133, 0, 0, 0, 0, 0, 0, 0], some 255⟩

/-- Two solicitations come while the first advertisement is being sent. -/
def overlapping : List Event :=
  [.pacerPosts, .senderTakes, .received (.datagram solicitation),
    .received (.datagram solicitation), .pacerWakes, .sendEnds false]

/-- The second solicitation is counted and finds the trigger of the first; one send has failed, and
one more is to come. -/
theorem one_trigger_for_two :
    ∃ p, (start [] {}).after? overlapping = some p ∧ p.stats.solicitations = 2 ∧
      p.stats.sends = 1 ∧ (start [] {}).posted overlapping = 2 ∧ p.SendToCome := by
  have hafter : (start [] {}).after? overlapping =
      some ⟨[], .receiving, true, .waiting, ⟨1, 1, false⟩, ⟨2, 0, 1, 0⟩⟩ := by
    cbv
  have hasks : Listener.asks solicitation = true := by
    cbv
  obtain ⟨hposted, -, -, hcome⟩ := triggers_conserved [] {} overlapping _ hafter
  refine ⟨_, hafter, rfl, rfl, hposted, ?_⟩
  exact hcome [.pacerPosts, .senderTakes, .received (.datagram solicitation)] solicitation
    [.pacerWakes, .sendEnds false] rfl hasks (by decide)

end Pipeline

end MeshNode.Advertiser
