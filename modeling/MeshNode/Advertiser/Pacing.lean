import MeshNode.Duration

/-!
# Pacing advertisements

The time until the next unsolicited advertisement: drawn between two bounds, shorter for
the first few so that hosts learn of a new router soon, and a whole number of seconds.
-/

namespace MeshNode.Advertiser

/-- The greatest delay before the first few advertisements. -/
def initialDelay : Duration := .ofSecs 16

/-- To how many advertisements that applies. -/
def initialCount : UInt32 := 3

/-- Whether a duration goes up to the next whole second: a half does, and less than a
millisecond does not count. -/
def roundsUp (d : Duration) : Bool := 500 ≤ d.subsecNanos / 1000000

/-- The nearest whole second. Seconds are counted in words of 64 bits, and there is none that does
not fit. -/
def roundToSecond? (d : Duration) : Option Duration :=
  let secs := d.secs + (roundsUp d).toNat
  if secs < UInt64.size then some (.ofSecs secs) else none

/-- The delay of advertisement number `i` before it is rounded, given a draw between the
bounds. Bounds that leave nothing to draw give the greater one. -/
def unroundedDelay (i : UInt32) (least greatest draw : Duration) : Duration :=
  let delay := if greatest ≤ least then greatest else draw
  if i < initialCount ∧ initialDelay < delay then initialDelay else delay

/-- The delay before advertisement number `i` is followed by the next. -/
def multicastDelay? (i : UInt32) (least greatest draw : Duration) : Option Duration :=
  roundToSecond? (unroundedDelay i least greatest draw)

end MeshNode.Advertiser
