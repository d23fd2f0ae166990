import Handheld.Journal
import Handheld.Pacing.Policy

/-!
# Measuring speed

A `SpeedMeter` adds up wall-clock time and clock cycles until a window of time is full.  Then it
closes the window: it answers the ratio of the cycles to those that the clock would have made in
that time, and starts again from nothing.
-/

set_option autoImplicit false

namespace Handheld

/-- The open window of a measurement, and the result of the last closed one. -/
structure SpeedMeter where
  elapsedMs : Nat := 0
  cycles : Nat := 0
  last : Option Float32 := none

namespace SpeedMeter

/-- The number nearest to a whole number. -/
def toFloat (n : Nat) : Float := (UInt64.ofNat n).toFloat

/-- The ratio of cycles to those of a clock in some milliseconds. -/
def ratio (clockHz elapsedMs cycles : Nat) : Float32 :=
  (toFloat cycles / (toFloat clockHz * toFloat elapsedMs / 1000)).toFloat32

/-- Adds a slice of time and the cycles it was given.  If that fills the window, answers the
ratio. -/
def record (meter : SpeedMeter) (policy : PacingPolicy) (dt cycles : Nat) :
    Option Float32 × SpeedMeter :=
  let elapsedMs := meter.elapsedMs + dt
  let cycles := meter.cycles + cycles
  if elapsedMs < policy.speedWindowMs then (none, { meter with elapsedMs, cycles })
  else
    let speed := ratio policy.clockHz elapsedMs cycles
    (some speed, { last := some speed })

/-- What the result of a measurement reports. -/
def events (policy : PacingPolicy) : Option Float32 → List Event
  | some speed => if speed < policy.speedWarning then [.slow speed] else []
  | none => []

end SpeedMeter
end Handheld
