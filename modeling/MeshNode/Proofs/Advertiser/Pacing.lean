import MeshNode.Advertiser.Pacer

/-!
# Delays between advertisements

The pacer waits a whole number of seconds after each trigger, and the number stays within its
bounds however long it runs.

* **rounding** — `IsNearestSecond` is what rounding is for; `roundToSecond?_eq`: the code does it,
  as long as a word holds the second. Between whole seconds rounding leads nowhere else
  (`IsNearestSecond.le`, `IsNearestSecond.ge`);
* **one delay** — `multicastDelay?_bounds`, for whole seconds as bounds;
* **runs** — `waits` lists the delays of a history. `act_cases` is one step of it, and
  `getElem?_waits` says which number and which draw the delay at each place has. Numbers end at the
  last one, so that the first ones do not come back. `exists_length_waits`: no length is out of
  reach.

`delays_in_bounds` puts these together.
-/

namespace MeshNode.Advertiser

/-! ## Rounding -/

/-- Whether a number of seconds is the one nearest to a duration, which is taken in whole
milliseconds. Half a second goes up. -/
def IsNearestSecond (d : Duration) (n : Nat) : Prop :=
  1000 * n ≤ d.millis + 500 ∧ d.millis + 500 < 1000 * (n + 1)

instance (d : Duration) (n : Nat) : Decidable (IsNearestSecond d n) :=
  inferInstanceAs (Decidable (_ ∧ _))

variable {d : Duration} {m n : Nat}

theorem ofSecs_le_iff : .ofSecs m ≤ d ↔ m * 1000000000 ≤ d.nanos := Iff.rfl

theorem le_ofSecs_iff : d ≤ .ofSecs m ↔ d.nanos ≤ m * 1000000000 := Iff.rfl

/-- The code's sum of seconds is the nearest second. -/
theorem isNearestSecond_iff : IsNearestSecond d n ↔ n = d.secs + (roundsUp d).toNat := by
  have hmillis : d.millis = 1000 * d.secs + d.subsecNanos / 1000000 := by
    unfold Duration.millis Duration.secs Duration.subsecNanos
    omega
  have hsubsec : d.subsecNanos / 1000000 < 1000 := by
    unfold Duration.subsecNanos
    omega
  rw [IsNearestSecond, hmillis, roundsUp]
  by_cases hup : 500 ≤ d.subsecNanos / 1000000
  · rw [decide_eq_true hup, Bool.toNat_true]
    omega
  · rw [decide_eq_false hup, Bool.toNat_false]
    omega

theorem exists_nearestSecond (d : Duration) : ∃ n, IsNearestSecond d n :=
  ⟨_, isNearestSecond_iff.mpr rfl⟩

theorem roundToSecond?_eq (h : IsNearestSecond d n) :
    roundToSecond? d = if n < UInt64.size then some (.ofSecs n) else none := by
  rw [isNearestSecond_iff.mp h]
  rfl

/-- A duration from a whole second on is not rounded below it. -/
theorem IsNearestSecond.le (h : IsNearestSecond d n) (hm : .ofSecs m ≤ d) : m ≤ n := by
  have hlt := h.2
  rw [ofSecs_le_iff] at hm
  unfold Duration.millis at hlt
  omega

/-- A duration up to a whole second is not rounded beyond it. -/
theorem IsNearestSecond.ge (h : IsNearestSecond d n) (hm : d ≤ .ofSecs m) : n ≤ m := by
  have hle := h.1
  rw [le_ofSecs_iff] at hm
  unfold Duration.millis at hle
  omega

/-! ## One delay -/

variable {i : UInt32} {least greatest draw : Duration}

/-- What the bounds and the draw come to, cut to sixteen seconds for the first three. -/
theorem unroundedDelay_eq :
    unroundedDelay i least greatest draw =
      let drawn := if greatest ≤ least then greatest else draw
      if i < 3 then ⟨min drawn.nanos 16000000000⟩ else drawn := by
  have hcut : ∀ drawn : Duration,
      (if i < initialCount ∧ initialDelay < drawn then initialDelay else drawn) =
        if i < 3 then ⟨min drawn.nanos 16000000000⟩ else drawn := by
    intro drawn
    by_cases hi : i < 3
    · rw [if_pos hi]
      by_cases hlong : initialDelay < drawn
      · have hnanos : 16000000000 < drawn.nanos := hlong
        rw [if_pos ⟨hi, hlong⟩, Nat.min_eq_right (Nat.le_of_lt hnanos)]
        rfl
      · have hnanos : drawn.nanos ≤ 16000000000 := Nat.le_of_not_lt hlong
        rw [if_neg fun h => hlong h.2, Nat.min_eq_left hnanos]
    · rw [if_neg hi, if_neg fun h => hi h.1]
  exact hcut _

/-- Between whole seconds the delay stays between them, and the first three between their cuts. -/
theorem unroundedDelay_bounds {M : Nat} (hmM : m ≤ M) (hm : .ofSecs m ≤ draw)
    (hM : draw ≤ .ofSecs M) :
    let d := unroundedDelay i (.ofSecs m) (.ofSecs M) draw
    (i < 3 → .ofSecs (min m 16) ≤ d ∧ d ≤ .ofSecs (min M 16)) ∧
      (¬ i < 3 → .ofSecs m ≤ d ∧ d ≤ .ofSecs M) := by
  obtain ⟨drawn, hdrawn, hlow, hhigh⟩ : ∃ drawn : Duration,
      (if .ofSecs M ≤ Duration.ofSecs m then .ofSecs M else draw) = drawn ∧
        .ofSecs m ≤ drawn ∧ drawn ≤ .ofSecs M := by
    refine ⟨_, rfl, ?_⟩
    split
    · exact ⟨ofSecs_le_iff.mpr (Nat.mul_le_mul_right _ hmM), Nat.le_refl _⟩
    · exact ⟨hm, hM⟩
  rw [unroundedDelay_eq]
  simp only [hdrawn]
  refine ⟨fun hi => ?_, fun hi => ?_⟩
  · rw [if_pos hi]
    rw [ofSecs_le_iff] at hlow ⊢
    rw [le_ofSecs_iff] at hhigh ⊢
    dsimp only
    omega
  · rw [if_neg hi]
    exact ⟨hlow, hhigh⟩

theorem nearest_bounds {M : Nat} (hmM : m ≤ M) (hm : .ofSecs m ≤ draw) (hM : draw ≤ .ofSecs M)
    (hnear : IsNearestSecond (unroundedDelay i (.ofSecs m) (.ofSecs M) draw) n) :
    (i < 3 → min m 16 ≤ n ∧ n ≤ min M 16) ∧ (¬ i < 3 → m ≤ n ∧ n ≤ M) := by
  obtain ⟨hfirst, hlater⟩ := unroundedDelay_bounds (i := i) hmM hm hM
  refine ⟨fun hi => ⟨?_, ?_⟩, fun hi => ⟨?_, ?_⟩⟩
  · exact hnear.le (hfirst hi).1
  · exact hnear.ge (hfirst hi).2
  · exact hnear.le (hlater hi).1
  · exact hnear.ge (hlater hi).2

/-- Between whole seconds the sum of seconds has room in its word. -/
theorem nearest_fits {M : Nat} (hmM : m ≤ M) (hM64 : M < UInt64.size) (hm : .ofSecs m ≤ draw)
    (hM : draw ≤ .ofSecs M)
    (hnear : IsNearestSecond (unroundedDelay i (.ofSecs m) (.ofSecs M) draw) n) :
    n < UInt64.size := by
  obtain ⟨hfirst, hlater⟩ := nearest_bounds hmM hm hM hnear
  refine Nat.lt_of_le_of_lt ?_ hM64
  by_cases hi : i < 3
  · exact Nat.le_trans (hfirst hi).2 (Nat.min_le_left ..)
  · exact (hlater hi).2

/-- Between whole seconds the delay is a whole number of seconds between them. -/
theorem multicastDelay?_bounds {M : Nat} (hmM : m ≤ M) (hM64 : M < UInt64.size)
    (hm : .ofSecs m ≤ draw) (hM : draw ≤ .ofSecs M) :
    ∃ n, multicastDelay? i (.ofSecs m) (.ofSecs M) draw = some (.ofSecs n) ∧
      (i < 3 → min m 16 ≤ n ∧ n ≤ min M 16) ∧ (¬ i < 3 → m ≤ n ∧ n ≤ M) := by
  obtain ⟨n, hnear⟩ := exists_nearestSecond (unroundedDelay i (.ofSecs m) (.ofSecs M) draw)
  refine ⟨n, ?_, nearest_bounds hmM hm hM hnear⟩
  rw [multicastDelay?, roundToSecond?_eq hnear, if_pos (nearest_fits hmM hM64 hm hM hnear)]

/-! ## Runs -/

namespace Pacer

/-- What can happen to a pacer. -/
inductive Act
  /-- It takes a step, if it can. -/
  | step
  /-- Milliseconds pass. -/
  | pass (millis : Nat)
  /-- Others put triggers into the queue, take some out, or close it. -/
  | change (queue : TriggerQueue)
  /-- It is told to end. -/
  | tell
deriving DecidableEq

namespace State

/-- The delay that has begun between two states, in milliseconds. -/
def wait? (s t : State) : Option Nat :=
  match s.phase, t.phase with
  | .sending, .sleeping wakeAt => some (wakeAt - s.now)
  | _, _ => none

section

variable (least greatest : Duration) (draw : Nat → Duration)

/-- What becomes of a pacer. -/
def act (s : State) : Act → State
  | .step => (s.step? least greatest draw).getD s
  | .pass millis => { s with now := s.now + millis }
  | .change queue => { s with queue }
  | .tell => { s with told := true }

/-- The delays of a history, in milliseconds, in the order in which they begin. -/
def waits (s : State) : List Act → List Nat
  | [] => []
  | a :: acts =>
    (s.wait? (s.act least greatest draw a)).toList ++ waits (s.act least greatest draw a) acts

end

variable {s : State} {least greatest : Duration} {draw : Nat → Duration}

/-- A number counts delays, as far as numbers go. -/
def Counted (s : State) : Prop := s.number.toNat = min s.drawn lastNumber.toNat

theorem counted_start (queue : TriggerQueue) : (start queue).Counted := rfl

theorem toNat_nextNumber {i : UInt32} {k : Nat} (h : i.toNat = min k lastNumber.toNat) :
    (nextNumber i).toNat = min (k + 1) lastNumber.toNat := by
  have hlast : lastNumber.toNat = 4294967295 := rfl
  rw [hlast] at h ⊢
  unfold nextNumber
  split
  · next heq =>
    rw [heq, hlast] at h ⊢
    omega
  · next hne =>
    have hlt : i.toNat ≠ 4294967295 := fun h => hne (UInt32.toNat_inj.mp h)
    rw [UInt32.toNat_add, UInt32.toNat_one]
    omega

/-- A step begins no delay and counts nothing, or begins the next delay and counts it. -/
theorem act_cases (s : State) (least greatest : Duration) (draw : Nat → Duration) (a : Act) :
    let t := s.act least greatest draw a
    (s.wait? t = none ∧ t.number = s.number ∧ t.drawn = s.drawn) ∨
      ∃ delay, multicastDelay? s.number least greatest (draw s.drawn) = some delay ∧
        s.wait? t = some delay.millis ∧ t.number = nextNumber s.number ∧ t.drawn = s.drawn + 1 := by
  intro t
  -- outside of its own steps a pacer stays in its phase, and no delay begins
  have hsame : t.phase = s.phase → s.wait? t = none := by
    intro hphase
    rw [wait?, hphase]
    cases s.phase <;> rfl
  cases a with
  | pass | change | tell => exact .inl ⟨hsame rfl, rfl, rfl⟩
  | step =>
    obtain ⟨phase, queue, now, number, drawn, told⟩ := s
    cases phase with
    | finished => exact .inl ⟨rfl, rfl, rfl⟩
    | sleeping wakeAt =>
      refine .inl ⟨rfl, ?_, ?_⟩ <;>
      · simp only [t, act, step?]
        split
        · rfl
        · split <;> rfl
    | sending =>
      simp only [t, act, step?]
      split
      · exact .inl ⟨rfl, rfl, rfl⟩
      · split
        · exact .inl ⟨rfl, rfl, rfl⟩
        · cases hdelay : multicastDelay? number least greatest (draw drawn) with
          | none => exact .inl ⟨rfl, rfl, rfl⟩
          | some delay =>
            exact .inr ⟨delay, rfl, congrArg some (Nat.add_sub_cancel_left ..), rfl, rfl⟩

/-- The delay at a place of a history has the number of its place and the draw of its place. -/
theorem getElem?_waits (hs : s.Counted) {acts : List Act} {k ms : Nat}
    (h : (s.waits least greatest draw acts)[k]? = some ms) :
    ∃ (i : UInt32) (delay : Duration), i.toNat = min (s.drawn + k) lastNumber.toNat ∧
      multicastDelay? i least greatest (draw (s.drawn + k)) = some delay ∧ ms = delay.millis := by
  induction acts generalizing s k with
  | nil => cases h
  | cons a acts ih =>
    rw [waits] at h
    rcases act_cases s least greatest draw a with
      ⟨hwait, hnumber, hdrawn⟩ | ⟨delay, hdelay, hwait, hnumber, hdrawn⟩
    · rw [hwait] at h
      rw [← hdrawn]
      refine ih ?_ h
      rw [Counted, hnumber, hdrawn, hs]
    · rw [hwait] at h
      cases k with
      | zero =>
        cases h
        exact ⟨s.number, delay, hs, hdelay, rfl⟩
      | succ k =>
        have hplace : (s.act least greatest draw a).drawn + k = s.drawn + (k + 1) := by omega
        rw [← hplace]
        refine ih ?_ h
        rw [Counted, hnumber, hdrawn]
        exact toNat_nextNumber hs

theorem getElem?_waits_start {queue : TriggerQueue} {acts : List Act} {k ms : Nat}
    (h : ((start queue).waits least greatest draw acts)[k]? = some ms) :
    ∃ (i : UInt32) (delay : Duration), i.toNat = min k lastNumber.toNat ∧
      multicastDelay? i least greatest (draw k) = some delay ∧ ms = delay.millis := by
  obtain ⟨i, delay, hi, hdelay, hms⟩ := getElem?_waits (counted_start queue) h
  have hk : (start queue).drawn + k = k := Nat.zero_add k
  rw [hk] at hi hdelay
  exact ⟨i, delay, hi, hdelay, hms⟩

/-- The first three numbers are those of the first three places. -/
theorem lt_three_iff {i : UInt32} {k : Nat} (h : i.toNat = min k lastNumber.toNat) :
    i < 3 ↔ k < 3 := by
  have h3 : (3 : UInt32).toNat = 3 := rfl
  have hlast : lastNumber.toNat = 4294967295 := rfl
  rw [UInt32.lt_iff_toNat_lt, h, h3, hlast]
  omega

/-- A pacer that puts its trigger in goes on with the next number after its delay, if someone
takes the trigger out meanwhile. -/
theorem waits_turn {queue : TriggerQueue} (hopen : queue.closed = false)
    (hroom : queue.isFull = false) (now drawn : Nat) {number : UInt32} {delay : Duration}
    (hdelay : multicastDelay? number least greatest (draw drawn) = some delay) (acts : List Act) :
    waits least greatest draw ⟨.sending, queue, now, number, drawn, false⟩
        (.step :: .change queue :: .pass delay.millis :: .step :: acts) =
      (now + delay.millis - now) :: waits least greatest draw
        ⟨.sending, queue, now + delay.millis, nextNumber number, drawn + 1, false⟩ acts := by
  have hsend : act least greatest draw ⟨.sending, queue, now, number, drawn, false⟩ .step =
      ⟨.sleeping (now + delay.millis), queue.push, now, nextNumber number, drawn + 1, false⟩ := by
    simp only [act, step?, hopen, hroom, hdelay, Option.getD_some, Bool.false_eq_true, ite_false]
  have hwake : act least greatest draw
      ⟨.sleeping (now + delay.millis), queue, now + delay.millis, nextNumber number, drawn + 1,
        false⟩ .step =
      ⟨.sending, queue, now + delay.millis, nextNumber number, drawn + 1, false⟩ := by
    simp only [act, step?, Nat.le_refl, Option.getD_some, Bool.false_eq_true, ite_false, ite_true]
  rw [waits, hsend, waits, waits, waits, ← hwake]
  rfl

section Endless

variable (hdelays : ∀ i k, (multicastDelay? i least greatest (draw k)).isSome = true)
  {queue : TriggerQueue} (hopen : queue.closed = false) (hroom : queue.isFull = false)

include hdelays hopen hroom

/-- With room in its queue after each trigger a pacer whose delays all are durations goes on for as
many of them as one likes, in no more time than they take. -/
theorem exists_prompt_waits (count now drawn : Nat) (number : UInt32) :
    ∃ acts, (waits least greatest draw ⟨.sending, queue, now, number, drawn, false⟩ acts).length =
        count ∧
      ∀ millis, .pass millis ∈ acts → ∃ i k delay,
        multicastDelay? i least greatest (draw k) = some delay ∧ millis = delay.millis := by
  induction count generalizing now drawn number with
  | zero => exact ⟨[], rfl, fun millis h => absurd h List.not_mem_nil⟩
  | succ count ih =>
    obtain ⟨delay, hdelay⟩ := Option.isSome_iff_exists.mp (hdelays number drawn)
    obtain ⟨acts, hacts, hpassed⟩ := ih (now + delay.millis) (drawn + 1) (nextNumber number)
    refine ⟨.step :: .change queue :: .pass delay.millis :: .step :: acts, ?_, ?_⟩
    · rw [waits_turn hopen hroom now drawn hdelay, List.length_cons, hacts]
    · intro millis h
      simp only [List.mem_cons, reduceCtorEq, false_or, Act.pass.injEq] at h
      rcases h with rfl | h
      · exact ⟨number, drawn, delay, hdelay, rfl⟩
      · exact hpassed millis h

theorem exists_length_waits (count : Nat) :
    ∃ acts, (waits least greatest draw (start queue) acts).length = count :=
  (exists_prompt_waits hdelays hopen hroom count 0 0 0).imp fun _ h => h.1

end Endless

end State

end Pacer

open Pacer (start Act lastNumber)
open Pacer.State (waits)

/-- Pacing keeps its bounds over runs of any length. With whole seconds as bounds and draws between
them, every delay is a whole number of seconds between the bounds, the first three between the
bounds cut to sixteen seconds, no sum of seconds leaves its word, and there are runs with any
number of delays. With any bounds and draws the delay at place `k` has the number `k`, or the last
number from there on, and it is the second nearest to its draw, as long as a duration holds that
second. The draw is the greater bound if the bounds leave nothing to draw, and it is cut for the
first three. -/
theorem delays_in_bounds :
    (∀ m M : Nat, m ≤ M → M < UInt64.size → ∀ draw : Nat → Duration,
      (∀ k, .ofSecs m ≤ draw k ∧ draw k ≤ .ofSecs M) →
        (∀ queue acts k ms,
          (waits (.ofSecs m) (.ofSecs M) draw (start queue) acts)[k]? = some ms →
            ∃ n, ms = (Duration.ofSecs n).millis ∧
              (k < 3 → min m 16 ≤ n ∧ n ≤ min M 16) ∧ (3 ≤ k → m ≤ n ∧ n ≤ M)) ∧
        (∀ i k, let d := unroundedDelay i (.ofSecs m) (.ofSecs M) (draw k)
          d.secs + (roundsUp d).toNat < UInt64.size) ∧
        ∀ queue, queue.closed = false → queue.isFull = false →
          ∀ count, ∃ acts,
            (waits (.ofSecs m) (.ofSecs M) draw (start queue) acts).length = count) ∧
    (∀ least greatest draw queue acts k ms,
      (waits least greatest draw (start queue) acts)[k]? = some ms →
        ∃ (i : UInt32) (delay : Duration), i.toNat = min k lastNumber.toNat ∧
          multicastDelay? i least greatest (draw k) = some delay ∧ ms = delay.millis) ∧
    ∀ (i : UInt32) (least greatest draw : Duration),
      let drawn := if greatest ≤ least then greatest else draw
      let capped := if i < 3 then ⟨min drawn.nanos 16000000000⟩ else drawn
      ∃ n, IsNearestSecond capped n ∧
        (n < UInt64.size → multicastDelay? i least greatest draw = some (.ofSecs n)) := by
  refine ⟨?inBounds, ?numbered, ?nearest⟩
  case inBounds =>
    intro m M hmM hM64 draw hdraw
    have hbounds := fun i k => multicastDelay?_bounds (i := i) hmM hM64 (hdraw k).1 (hdraw k).2
    refine ⟨fun queue acts k ms hms => ?_, fun i k => ?_, fun queue hopen hroom count => ?_⟩
    · obtain ⟨i, delay, hi, hdelay, rfl⟩ := Pacer.State.getElem?_waits_start hms
      have hi3 : i < 3 ↔ k < 3 := Pacer.State.lt_three_iff hi
      obtain ⟨n, hn, hfirst, hlater⟩ := hbounds i k
      obtain rfl : delay = .ofSecs n := Option.some.inj (hdelay.symm.trans hn)
      refine ⟨n, rfl, fun hk => hfirst (hi3.mpr hk), fun hk => hlater fun hi => ?_⟩
      exact Nat.not_lt.mpr hk (hi3.mp hi)
    · exact nearest_fits hmM hM64 (hdraw k).1 (hdraw k).2 (isNearestSecond_iff.mpr rfl)
    · refine Pacer.State.exists_length_waits (fun i k => ?_) hopen hroom count
      obtain ⟨n, hn, -⟩ := hbounds i k
      rw [hn]
      rfl
  case numbered =>
    intro least greatest draw queue acts k ms hms
    exact Pacer.State.getElem?_waits_start hms
  case nearest =>
    intro i least greatest draw drawn capped
    obtain ⟨n, hn⟩ := exists_nearestSecond capped
    refine ⟨n, hn, fun hn64 => ?_⟩
    rw [multicastDelay?, unroundedDelay_eq]
    exact (roundToSecond?_eq hn).trans (if_pos hn64)

/-- Draws between four and forty seconds. -/
def someDraws : Nat → Duration
  | 0 => .ofMillis 30700
  | 1 => .ofMillis 12500
  | 2 => .ofMillis 4499
  | _ => .ofMillis 39600

/-- A pacer puts a trigger in, which is taken out, and wakes after its delay. -/
def turnAfter (seconds : Nat) : List Act :=
  [.step, .change (.empty 1), .pass (1000 * seconds), .step]

/-- Only the fourth delay is longer than sixteen seconds. -/
theorem cut_for_three_delays :
    let acts := turnAfter 16 ++ turnAfter 13 ++ turnAfter 4 ++ turnAfter 40
    waits (.ofSecs 4) (.ofSecs 40) someDraws (start (.empty 1)) acts =
        [16000, 13000, 4000, 40000] ∧
      (∃ n, 16000 = (Duration.ofSecs n).millis ∧ 4 ≤ n ∧ n ≤ 16) ∧
      (∃ n, 40000 = (Duration.ofSecs n).millis ∧ 4 ≤ n ∧ n ≤ 40) ∧
      (∃ (i : UInt32) (delay : Duration), i.toNat = min 3 lastNumber.toNat ∧
        multicastDelay? i (.ofSecs 4) (.ofSecs 40) (someDraws 3) = some delay ∧
        40000 = delay.millis) ∧
      (IsNearestSecond (.ofMillis 12500) 13 ∧
        multicastDelay? 1 (.ofSecs 4) (.ofSecs 40) (.ofMillis 12500) = some (.ofSecs 13)) ∧
      ∃ acts, (waits (.ofSecs 4) (.ofSecs 40) someDraws (start (.empty 1)) acts).length =
        UInt32.size + 1 := by
  intro acts
  have hwaits : waits (.ofSecs 4) (.ofSecs 40) someDraws (start (.empty 1)) acts =
      [16000, 13000, 4000, 40000] := by decide +kernel
  have hdraws : ∀ k, .ofSecs 4 ≤ someDraws k ∧ someDraws k ≤ .ofSecs 40 := by
    intro k
    unfold someDraws
    split <;> decide
  obtain ⟨hbounds, -, hendless⟩ :=
    delays_in_bounds.1 4 40 (by decide) (by decide) someDraws hdraws
  have hplace : ∀ k ms, [16000, 13000, 4000, 40000][k]? = some ms →
      ∃ n, ms = (Duration.ofSecs n).millis ∧
        (k < 3 → min 4 16 ≤ n ∧ n ≤ min 40 16) ∧ (3 ≤ k → 4 ≤ n ∧ n ≤ 40) :=
    fun k ms hms => hbounds (.empty 1) acts k ms (hwaits ▸ hms)
  obtain ⟨first, hfirst, hcut, -⟩ := hplace 0 16000 rfl
  obtain ⟨fourth, hfourth, -, huncut⟩ := hplace 3 40000 rfl
  obtain ⟨n, hn, hdelay⟩ :=
    delays_in_bounds.2.2 1 (.ofSecs 4) (.ofSecs 40) (.ofMillis 12500)
  have h13 : IsNearestSecond (.ofMillis 12500) 13 := by decide
  obtain rfl : n = 13 := (isNearestSecond_iff.mp hn).trans (isNearestSecond_iff.mp h13).symm
  exact ⟨hwaits, ⟨first, hfirst, hcut (by decide)⟩, ⟨fourth, hfourth, huncut (by decide)⟩,
    delays_in_bounds.2.1 _ _ _ (.empty 1) acts 3 40000 (hwaits ▸ rfl), ⟨h13, hdelay (by decide)⟩,
    hendless (.empty 1) rfl rfl _⟩

/-- The nearest second of the longest durations is no duration, and there is no delay: the sum of
seconds does not fit in its word. -/
theorem longest_delay_overflows :
    let d : Duration := ⟨(UInt64.size - 1) * 1000000000 + 500000000⟩
    d.secs < UInt64.size ∧ IsNearestSecond d UInt64.size ∧ multicastDelay? 3 d d d = none := by
  intro d
  have hnear : IsNearestSecond d UInt64.size := by decide
  refine ⟨by decide, hnear, ?_⟩
  exact (roundToSecond?_eq hnear).trans (if_neg (Nat.lt_irrefl _))

end MeshNode.Advertiser
