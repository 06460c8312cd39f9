import MeshNode.Advertiser.Listener
import MeshNode.Proofs.Advertiser.Triggers
import MeshNode.Proofs.Ndp.Reading

/-!
# What the listener lives through

The loop of the listener takes one receive after the other. Whatever comes, it goes on while its
queue is open, and two of its counts tell what has come.

* **what is counted** — `Solicits`: a datagram that asks for an advertisement; `asks_iff`;
* **turns** — `turn_eq`: a receive with the wait that follows it; others may have changed the queue
  since the turn before;
* **histories** — `stats_after`, `posted_le`;
* **all of it** — `survives_and_counts`.
-/

namespace MeshNode.Advertiser

/-! ## What is counted -/

namespace Listener

/-- What the buffer keeps of a datagram is a Router Solicitation, and for all that is known it has
crossed no router. -/
def Solicits (d : Datagram) : Prop :=
  (∃ options, Ndp.decode (d.octets.take bufferSize) = .ok (.solicitation options)) ∧
    (d.hopLimit = none ∨ d.hopLimit = some onLinkHopLimit)

theorem isSolicitation_iff (octets : List UInt8) :
    isSolicitation octets = true ↔
      ∃ options, Ndp.decode (octets.take bufferSize) = .ok (.solicitation options) := by
  unfold isSolicitation
  split
  · next options h => exact iff_of_true rfl ⟨options, h⟩
  · next hnot => exact iff_of_false Bool.false_ne_true fun ⟨options, h⟩ => hnot options h

theorem isOnLink_iff (hopLimit : Option Nat) :
    isOnLink hopLimit = true ↔ hopLimit = none ∨ hopLimit = some onLinkHopLimit := by
  cases hopLimit with
  | none => exact iff_of_true rfl (Or.inl rfl)
  | some n => simp [isOnLink]

theorem asks_iff (d : Datagram) : asks d = true ↔ Solicits d := by
  rw [asks, Bool.and_eq_true, isSolicitation_iff, isOnLink_iff]
  rfl

instance : DecidablePred Solicits := fun d => decidable_of_iff _ (asks_iff d)

/-- In the octets of the wire: eight of a header, and a row of options. -/
theorem solicits_iff_spells (d : Datagram) :
    Solicits d ↔
      (∃ options, Ndp.Spells (d.octets.take bufferSize) (.solicitation options)) ∧
        (d.hopLimit = none ∨ d.hopLimit = some onLinkHopLimit) :=
  and_congr_left fun _ => exists_congr fun _ => Ndp.decode_eq_ok_iff

/-- The receive gives a datagram that solicits. -/
def Counted : Received → Prop
  | .datagram d => Solicits d
  | .failure => False

instance : DecidablePred Counted
  | .datagram d => inferInstanceAs (Decidable (Solicits d))
  | .failure => inferInstanceAs (Decidable False)

/-- The counts after a receive. -/
def heardStats (stats : Stats) (r : Received) : Stats :=
  { stats with
    solicitations := stats.solicitations + if Counted r then 1 else 0
    recvErrors := stats.recvErrors + if r = .failure then 1 else 0 }

/-- The counts after some receives. -/
def tally (stats : Stats) (rs : List Received) : Stats :=
  { stats with
    solicitations := stats.solicitations + rs.countP (Counted ·)
    recvErrors := stats.recvErrors + rs.count .failure }

theorem tally_cons (stats : Stats) (r : Received) (rs : List Received) :
    tally stats (r :: rs) = tally (heardStats stats r) rs := by
  simp only [tally, heardStats, List.countP_cons, List.count_cons, decide_eq_true_eq, beq_iff_eq]
  congr 1 <;> omega

theorem tally_perm (stats : Stats) {rs rs' : List Received} (h : rs.Perm rs') :
    tally stats rs = tally stats rs' := by
  rw [tally, tally, h.countP_eq, h.count_eq]

/-! ## Turns -/

/-- A turn of the loop: what the receive gives, and the queue as others have left it by then. -/
structure Turn where
  received : Received
  queue : TriggerQueue
deriving DecidableEq

namespace State

variable {s : State} {t : Turn} {ts : List Turn}

/-- The receive of a turn has ended. -/
def hear (s : State) (t : Turn) : State := { s with queue := t.queue }.receive t.received

/-- The turn is over, with the wait after a receive that failed. -/
def turn (s : State) (t : Turn) : State := (s.hear t).resume

/-- After some turns. -/
def after (s : State) (ts : List Turn) : State := ts.foldl turn s

/-- How many triggers a turn puts into the queue. -/
def posts (s : State) (t : Turn) : Nat := (s.turn t).queue.queued - t.queue.queued

/-- How many triggers some turns put into the queue. -/
def posted (s : State) : List Turn → Nat
  | [] => 0
  | t :: ts => s.posts t + (s.turn t).posted ts

theorem phase_hear (hs : s.phase = .receiving) (ht : t.queue.closed = false) :
    (s.hear t).phase ≠ .finished := by
  unfold hear receive
  cases t.received with
  | failure => nofun
  | datagram d =>
    dsimp only
    split
    · rw [ht]
      nofun
    · rw [hs]
      nofun

/-- A turn leaves the listener receiving, counts what came, and puts in a trigger if it asks for
one. -/
theorem turn_eq (hs : s.phase = .receiving) (ht : t.queue.closed = false) :
    s.turn t = ⟨.receiving, heardStats s.stats t.received,
      if Counted t.received then t.queue.push else t.queue⟩ := by
  unfold turn hear receive
  cases t.received with
  | failure => rfl
  | datagram d =>
    have hcounted : Counted (.datagram d) ↔ asks d = true := (asks_iff d).symm
    by_cases h : asks d = true
    · simp [heardStats, hcounted, h, ht, resume]
    · simp [heardStats, hcounted, h, hs, resume]

/-! ## Histories -/

theorem phase_after (hs : s.phase = .receiving) (hopen : ∀ t ∈ ts, t.queue.closed = false) :
    (s.after ts).phase = .receiving := by
  induction ts generalizing s with
  | nil => exact hs
  | cons t ts ih =>
    obtain ⟨ht, hts⟩ := List.forall_mem_cons.mp hopen
    refine ih ?_ hts
    rw [turn_eq hs ht]

theorem stats_after (hs : s.phase = .receiving) (hopen : ∀ t ∈ ts, t.queue.closed = false) :
    (s.after ts).stats = tally s.stats (ts.map Turn.received) := by
  induction ts generalizing s with
  | nil => rfl
  | cons t ts ih =>
    obtain ⟨ht, hts⟩ := List.forall_mem_cons.mp hopen
    have hturn := turn_eq hs ht
    show ((s.turn t).after ts).stats = _
    rw [ih (by rw [hturn]) hts, hturn, List.map_cons, tally_cons]

theorem posts_le (hs : s.phase = .receiving) (ht : t.queue.closed = false) :
    s.posts t ≤ if Counted t.received then 1 else 0 := by
  rw [posts, turn_eq hs ht]
  split
  · rw [TriggerQueue.queued_push]
    split <;> omega
  · exact Nat.le_of_eq (Nat.sub_self _)

theorem posted_le (hs : s.phase = .receiving) (hopen : ∀ t ∈ ts, t.queue.closed = false) :
    s.posted ts ≤ (ts.map Turn.received).countP (Counted ·) := by
  induction ts generalizing s with
  | nil => exact Nat.le_refl 0
  | cons t ts ih =>
    obtain ⟨ht, hts⟩ := List.forall_mem_cons.mp hopen
    have hfirst := posts_le hs ht
    have hrest := ih (s := s.turn t) (by rw [turn_eq hs ht]) hts
    simp only [List.map_cons, List.countP_cons, decide_eq_true_eq, posted]
    omega

/-- Whatever comes while the queue is open, the listener goes on: it counts the datagrams that are
Router Solicitations and may not have crossed a router, and the receives that failed, and nothing
else; it puts in no more than one trigger for each of the former and none for anything else; and in
another order it counts the same. -/
theorem survives_and_counts (s : State) (ts : List Turn) (hs : s.phase = .receiving)
    (hopen : ∀ t ∈ ts, t.queue.closed = false) :
    (∀ d, Solicits d ↔
      (∃ options, Ndp.Spells (d.octets.take bufferSize) (.solicitation options)) ∧
        (d.hopLimit = none ∨ d.hopLimit = some onLinkHopLimit)) ∧
      (∀ before t rest, ts = before ++ t :: rest →
        (s.after before).phase = .receiving ∧ ((s.after before).hear t).phase ≠ .finished ∧
          ((s.after before).turn t).queue =
            (if Counted t.received then t.queue.push else t.queue) ∧
          (s.after before).posts t ≤ if Counted t.received then 1 else 0) ∧
      (s.after ts).phase = .receiving ∧
      (s.after ts).stats =
        { s.stats with
          solicitations := s.stats.solicitations + (ts.map Turn.received).countP (Counted ·)
          recvErrors := s.stats.recvErrors + (ts.map Turn.received).count .failure } ∧
      s.posted ts ≤ (ts.map Turn.received).countP (Counted ·) ∧
      ∀ ts' : List Turn, (∀ t ∈ ts', t.queue.closed = false) →
        (ts.map Turn.received).Perm (ts'.map Turn.received) →
        (s.after ts').stats = (s.after ts).stats := by
  refine ⟨solicits_iff_spells, ?_, phase_after hs hopen, stats_after hs hopen,
    posted_le hs hopen, fun ts' hopen' hperm => ?_⟩
  · rintro before t rest rfl
    have hphase : (s.after before).phase = .receiving :=
      phase_after hs fun t' ht' => hopen t' (List.mem_append_left _ ht')
    have ht : t.queue.closed = false :=
      hopen t (List.mem_append_right _ List.mem_cons_self)
    exact ⟨hphase, phase_hear hphase ht, by rw [turn_eq hphase ht], posts_le hphase ht⟩
  · rw [stats_after hs hopen, stats_after hs hopen']
    exact tally_perm s.stats hperm.symm

/-- A solicitation without options, a receive that fails, the same solicitation from behind a
router, and once more when the queue is full. -/
def busyTurns : List Turn :=
  let solicitation : List UInt8 := [133, 0, 0, 0, 0, 0, 0, 0]
  [⟨.datagram ⟨solicitation, some 255⟩, .empty 1⟩, ⟨.failure, .empty 1⟩,
    ⟨.datagram ⟨solicitation, some 64⟩, .empty 1⟩, ⟨.datagram ⟨solicitation, none⟩, ⟨1, 1, false⟩⟩]

/-- Two of them count, with one trigger, in this order and the other. -/
theorem busy_turns_counted :
    (start (.empty 1)).posted busyTurns = 1 ∧
      ((start (.empty 1)).after busyTurns).stats = ⟨2, 0, 0, 1⟩ ∧
      ((start (.empty 1)).after busyTurns.reverse).stats = ⟨2, 0, 0, 1⟩ := by
  have hopen : ∀ t ∈ busyTurns, t.queue.closed = false := by decide
  obtain ⟨-, -, -, hstats, -, horder⟩ :=
    survives_and_counts (start (.empty 1)) busyTurns rfl hopen
  have hcounts : ((start (.empty 1)).after busyTurns).stats = ⟨2, 0, 0, 1⟩ := by
    rw [hstats]
    decide +kernel
  refine ⟨by decide +kernel, hcounts, ?_⟩
  rw [horder busyTurns.reverse fun t ht => hopen t (List.mem_reverse.mp ht)]
  · exact hcounts
  · rw [List.map_reverse]
    exact (List.reverse_perm _).symm

end State

end Listener

end MeshNode.Advertiser
