import MeshNode.Proofs.Advertiser.Composing
import MeshNode.Proofs.Advertiser.Pacing
import MeshNode.Proofs.Settings.RoundTrip

/-!
# Intervals that settings may ask for

Settings are accepted when their least interval is not the greater one, and the least may be zero.
Then the pacer may wait no time at all between two triggers, since half a second is rounded away.

* **one delay** — `one_le_nearest_iff`, `half_le_unroundedDelay_iff`: a delay is no less than a
  second when its draw is no less than half a second, whatever its number;
* **runs** — `exists_waits_zero`: from lesser draws come any number of triggers in no time;
* **accepted settings** — `paced_apart_iff`: triggers are a second apart exactly when the least
  interval is not zero.
-/

namespace MeshNode.Advertiser

variable {i : UInt32} {d draw : Duration} {m M n : Nat}

/-! ## One delay -/

theorem ofMillis_le_iff : .ofMillis m ≤ d ↔ m * 1000000 ≤ d.nanos := Iff.rfl

theorem ofSecs_le_ofSecs : Duration.ofSecs m ≤ .ofSecs n ↔ m ≤ n := by
  show m * 1000000000 ≤ n * 1000000000 ↔ m ≤ n
  omega

theorem one_le_nearest_iff (h : IsNearestSecond d n) : 1 ≤ n ↔ .ofMillis 500 ≤ d := by
  obtain ⟨hle, hlt⟩ := h
  unfold Duration.millis at hle hlt
  rw [ofMillis_le_iff]
  omega

/-- The cut to sixteen seconds does not touch a draw of less than half a second. -/
theorem half_le_unroundedDelay_iff (hmM : m ≤ M) (hm : .ofSecs m ≤ draw)
    (hM : draw ≤ .ofSecs M) :
    .ofMillis 500 ≤ unroundedDelay i (.ofSecs m) (.ofSecs M) draw ↔ .ofMillis 500 ≤ draw := by
  have hdrawn : (if .ofSecs M ≤ Duration.ofSecs m then .ofSecs M else draw) = draw := by
    split
    · next hMm =>
      rw [ofSecs_le_ofSecs] at hMm
      rw [ofSecs_le_iff] at hm
      rw [le_ofSecs_iff] at hM
      have hnanos : M * 1000000000 = draw.nanos := by omega
      exact congrArg Duration.mk hnanos
    · rfl
  rw [unroundedDelay_eq]
  simp only [hdrawn]
  by_cases hi : i < 3
  · rw [if_pos hi, ofMillis_le_iff, ofMillis_le_iff]
    dsimp only
    omega
  · rw [if_neg hi]

theorem second_le_multicastDelay?_iff (hmM : m ≤ M) (hM64 : M < UInt64.size)
    (hm : .ofSecs m ≤ draw) (hM : draw ≤ .ofSecs M) :
    ∃ delay, multicastDelay? i (.ofSecs m) (.ofSecs M) draw = some delay ∧
      (.ofSecs 1 ≤ delay ↔ .ofMillis 500 ≤ draw) := by
  obtain ⟨n, hnear⟩ := exists_nearestSecond (unroundedDelay i (.ofSecs m) (.ofSecs M) draw)
  refine ⟨.ofSecs n, ?_, ?_⟩
  · rw [multicastDelay?, roundToSecond?_eq hnear, if_pos (nearest_fits hmM hM64 hm hM hnear)]
  · rw [ofSecs_le_ofSecs, one_le_nearest_iff hnear, half_le_unroundedDelay_iff hmM hm hM]

/-- A delay of less than a second is none. -/
theorem multicastDelay?_eq_zero (hmM : m ≤ M) (hM64 : M < UInt64.size)
    (hm : .ofSecs m ≤ draw) (hM : draw ≤ .ofSecs M) (hhalf : draw < .ofMillis 500) :
    multicastDelay? i (.ofSecs m) (.ofSecs M) draw = some .zero := by
  obtain ⟨n, hn, -⟩ := multicastDelay?_bounds (i := i) hmM hM64 hm hM
  obtain ⟨delay, hdelay, hiff⟩ := second_le_multicastDelay?_iff (i := i) hmM hM64 hm hM
  obtain rfl : delay = .ofSecs n := Option.some.inj (hdelay.symm.trans hn)
  have hless : ¬ 1 ≤ n := by
    rw [← ofSecs_le_ofSecs, hiff]
    exact Nat.not_le.mpr hhalf
  obtain rfl : n = 0 := by omega
  exact hn

/-! ## Accepted settings -/

open Pacer (start Act)
open Pacer.State (waits)

/-- Whether a delay may be drawn under some settings. -/
def Drawable (settings : AdvertiserSettings) (draw : Duration) : Prop :=
  settings.minInterval ≤ draw ∧ draw ≤ settings.maxInterval

instance (settings : AdvertiserSettings) (draw : Duration) : Decidable (Drawable settings draw) :=
  inferInstanceAs (Decidable (_ ∧ _))

/-- The intervals of accepted settings are in order, and words hold them. -/
theorem intervals_of_accepted {s : Settings} (hrange : s.InRange)
    (haccepted : s.validate = .ok ()) :
    s.radv.minIntervalSecs ≤ s.radv.maxIntervalSecs ∧ s.radv.maxIntervalSecs < UInt64.size := by
  have hordered : ¬ s.radv.maxIntervalSecs * 1000000000 < s.radv.minIntervalSecs * 1000000000 :=
    IsAccepted.inOrder ⟨s, haccepted, rfl⟩
  refine ⟨by omega, hrange.numbers _ ?_⟩
  simp [Settings.numbers]

theorem drawable_zero {settings : AdvertiserSettings} (h : settings.minIntervalSecs = 0) :
    Drawable settings .zero := by
  refine ⟨?_, Nat.zero_le _⟩
  show settings.minIntervalSecs * 1000000000 ≤ 0
  rw [h, Nat.zero_mul]

theorem half_le_of_drawable {settings : AdvertiserSettings} (h : 0 < settings.minIntervalSecs)
    (hdraw : Drawable settings draw) : .ofMillis 500 ≤ draw := by
  calc 500 * 1000000
    _ ≤ 1 * 1000000000 := by decide
    _ ≤ settings.minIntervalSecs * 1000000000 := Nat.mul_le_mul_right _ h
    _ ≤ draw.nanos := hdraw.1

/-- Without delays any number of triggers comes in no time. -/
theorem exists_waits_zero {least greatest : Duration} {draws : Nat → Duration}
    (hzero : ∀ i k, multicastDelay? i least greatest (draws k) = some .zero)
    {queue : TriggerQueue} (hopen : queue.closed = false) (hroom : queue.isFull = false)
    (count : Nat) :
    ∃ acts, waits least greatest draws (start queue) acts = List.replicate count 0 ∧
      ∀ millis, .pass millis ∈ acts → millis = 0 := by
  have hdelay : ∀ i k delay, multicastDelay? i least greatest (draws k) = some delay →
      delay.millis = 0 := by
    intro i k delay hdelay
    rw [hzero, Option.some.injEq] at hdelay
    rw [← hdelay]
    rfl
  obtain ⟨acts, hlength, hpassed⟩ :=
    Pacer.State.exists_prompt_waits (fun i k => by rw [hzero]; rfl) hopen hroom count 0 0 0
  refine ⟨acts, List.eq_replicate_iff.mpr ⟨hlength, fun ms hms => ?_⟩, fun millis h => ?_⟩
  · obtain ⟨k, hk⟩ := List.mem_iff_getElem?.mp hms
    obtain ⟨i, delay, -, hsome, rfl⟩ := Pacer.State.getElem?_waits_start hk
    exact hdelay i k delay hsome
  · obtain ⟨i, k, delay, hsome, rfl⟩ := hpassed millis h
    exact hdelay i k delay hsome

/-- Under accepted settings the pacer waits a second or more after each trigger, whatever it draws
and however long it runs, exactly when the least interval is not zero. Each delay is a second or
more exactly when its draw is half a second or more. While all draws are less, the pacer puts in
any number of triggers in no time, as long as somebody takes them out. -/
theorem paced_apart_iff {s : Settings} (hrange : s.InRange) (haccepted : s.validate = .ok ()) :
    let least := s.radv.minInterval
    let greatest := s.radv.maxInterval
    ((∀ i draw, Drawable s.radv draw →
        ∃ delay, multicastDelay? i least greatest draw = some delay ∧ .ofSecs 1 ≤ delay) ↔
        0 < s.radv.minIntervalSecs) ∧
      ((∀ draws : Nat → Duration, (∀ k, Drawable s.radv (draws k)) →
          ∀ queue acts, ∀ ms ∈ waits least greatest draws (start queue) acts, 1000 ≤ ms) ↔
        0 < s.radv.minIntervalSecs) ∧
      (∀ i draw, Drawable s.radv draw → ∃ delay,
        multicastDelay? i least greatest draw = some delay ∧
          (.ofSecs 1 ≤ delay ↔ .ofMillis 500 ≤ draw)) ∧
      ∀ draws : Nat → Duration, (∀ k, Drawable s.radv (draws k) ∧ draws k < .ofMillis 500) →
        ∀ queue : TriggerQueue, queue.closed = false → queue.isFull = false → ∀ count,
          ∃ acts, waits least greatest draws (start queue) acts = List.replicate count 0 ∧
            ∀ millis, .pass millis ∈ acts → millis = 0 := by
  intro least greatest
  obtain ⟨hmM, hM64⟩ := intervals_of_accepted hrange haccepted
  have hsecond : ∀ i draw, Drawable s.radv draw → ∃ delay,
      multicastDelay? i least greatest draw = some delay ∧
        (.ofSecs 1 ≤ delay ↔ .ofMillis 500 ≤ draw) :=
    fun i draw hdraw => second_le_multicastDelay?_iff hmM hM64 hdraw.1 hdraw.2
  have hprompt : ∀ draws : Nat → Duration,
      (∀ k, Drawable s.radv (draws k) ∧ draws k < .ofMillis 500) →
        ∀ queue : TriggerQueue, queue.closed = false → queue.isFull = false → ∀ count,
          ∃ acts, waits least greatest draws (start queue) acts = List.replicate count 0 ∧
            ∀ millis, .pass millis ∈ acts → millis = 0 := by
    intro draws hdraws queue hopen hroom count
    refine exists_waits_zero (fun i k => ?_) hopen hroom count
    obtain ⟨⟨hm, hM⟩, hhalf⟩ := hdraws k
    exact multicastDelay?_eq_zero hmM hM64 hm hM hhalf
  refine ⟨⟨fun hall => ?_, fun hpos i draw hdraw => ?_⟩, ⟨fun hall => ?_, fun hpos => ?_⟩, hsecond,
    hprompt⟩
  · apply Nat.pos_of_ne_zero
    intro hzero
    obtain ⟨delay, hdelay, hlong⟩ := hall 3 .zero (drawable_zero hzero)
    obtain ⟨same, hsame, hiff⟩ := hsecond 3 .zero (drawable_zero hzero)
    obtain rfl : same = delay := Option.some.inj (hsame.symm.trans hdelay)
    exact absurd (hiff.mp hlong) (by decide)
  · obtain ⟨delay, hdelay, hiff⟩ := hsecond i draw hdraw
    exact ⟨delay, hdelay, hiff.mpr (half_le_of_drawable hpos hdraw)⟩
  · apply Nat.pos_of_ne_zero
    intro hzero
    obtain ⟨acts, hacts, -⟩ := hprompt (fun _ => .zero)
      (fun _ => ⟨drawable_zero hzero, by decide⟩) (.empty 1) rfl rfl 1
    have hwait := hall (fun _ => .zero) (fun _ => drawable_zero hzero) (.empty 1) acts 0
      (by rw [hacts]; exact List.mem_singleton_self 0)
    exact absurd hwait (by decide)
  · intro draws hdraws queue acts ms hms
    obtain ⟨k, hk⟩ := List.mem_iff_getElem?.mp hms
    obtain ⟨i, delay, -, hdelay, rfl⟩ := Pacer.State.getElem?_waits_start hk
    obtain ⟨same, hsame, hiff⟩ := hsecond i _ (hdraws k)
    obtain rfl : same = delay := Option.some.inj (hsame.symm.trans hdelay)
    have hlong := hiff.mpr (half_le_of_drawable hpos (hdraws k))
    rw [ofSecs_le_iff] at hlong
    unfold Duration.millis
    omega

/-- Settings with an interval in seconds. -/
def everySeconds (least greatest : Nat) : Settings :=
  { radv := { minIntervalSecs := least, maxIntervalSecs := greatest } }

theorem inRange_everySeconds {least greatest : Nat} (hleast : least < 0x10000000000000000)
    (hgreatest : greatest < 0x10000000000000000) : (everySeconds least greatest).InRange := by
  refine ⟨show 9101 < 0x10000 by decide, ?_⟩
  simp [Settings.numbers, everySeconds, hleast, hgreatest]

/-- From one second on triggers are apart. From zero on it is the draw that decides: a draw of half
a second still makes a pause, and draws of less make none. -/
theorem pause_of_half_second :
    (everySeconds 1 2).InRange ∧ (everySeconds 1 2).validate = .ok () ∧
      (∀ i, ∃ delay, multicastDelay? i (.ofSecs 1) (.ofSecs 2) (.ofMillis 1499) = some delay ∧
        .ofSecs 1 ≤ delay) ∧
      (everySeconds 0 1).InRange ∧ (everySeconds 0 1).validate = .ok () ∧
      (∀ i, ∃ delay, multicastDelay? i (.ofSecs 0) (.ofSecs 1) (.ofMillis 500) = some delay ∧
        .ofSecs 1 ≤ delay) ∧
      (∀ i, ∃ delay, multicastDelay? i (.ofSecs 0) (.ofSecs 1) (.ofMillis 499) = some delay ∧
        ¬ .ofSecs 1 ≤ delay) ∧
      ∃ acts, waits (.ofSecs 0) (.ofSecs 1) (fun _ => .ofMillis 499) (start (.empty 1)) acts =
        List.replicate 1000 0 := by
  have h12 : (everySeconds 1 2).InRange := inRange_everySeconds (by decide) (by decide)
  have h01 : (everySeconds 0 1).InRange := inRange_everySeconds (by decide) (by decide)
  obtain ⟨hapart, -, -, -⟩ := paced_apart_iff h12 (by decide)
  obtain ⟨-, -, hhalf, hprompt⟩ := paced_apart_iff h01 (by decide)
  obtain ⟨acts, hacts, -⟩ := hprompt (fun _ => .ofMillis 499) (fun _ => by decide) (.empty 1) rfl
    rfl 1000
  refine ⟨h12, by decide, fun i => ?_, h01, by decide, fun i => ?_, fun i => ?_, acts, hacts⟩
  · exact hapart.mpr (by decide) i _ (by decide)
  · obtain ⟨delay, hdelay, hiff⟩ := hhalf i (.ofMillis 500) (by decide)
    exact ⟨delay, hdelay, hiff.mpr (by decide)⟩
  · obtain ⟨delay, hdelay, hiff⟩ := hhalf i (.ofMillis 499) (by decide)
    exact ⟨delay, hdelay, fun h => absurd (hiff.mp h) (by decide)⟩

/-- Settings whose intervals are zero are accepted, unlike those that look at the peer table all
the time. The pacer does not wait at all then, and fills its queue in no time. -/
theorem endless_triggers_accepted :
    let s := everySeconds 0 0
    let p := (start (.empty 8)).quiesce s.radv.minInterval s.radv.maxInterval fun _ => .zero
    s.validate = .ok () ∧
      ({ autopeering := { pollIntervalSecs := 0 } } : Settings).validate =
        .error .zeroPollInterval ∧
      Drawable s.radv .zero ∧
      multicastDelay? 3 s.radv.minInterval s.radv.maxInterval .zero = some .zero ∧
      p.queue.queued = 8 ∧ p.now = 0 := by
  decide +kernel

end MeshNode.Advertiser
