/-!
# The pacing policy

How wall-clock time becomes clock cycles: the frequency of the clock, the longest slice that is run
at once, and the window and the threshold of the speed measurement.
-/

set_option autoImplicit false

namespace Handheld

/-- The frequency of the handheld's clock in hertz. -/
def standardClock : Nat := 4194304

/-- How an emulator keeps time. -/
structure PacingPolicy where
  /-- Clock cycles in a second. -/
  clockHz : Nat := standardClock
  /-- The longest slice in milliseconds; a longer one is cut, so that a host that has fallen behind
  does not fall behind further. -/
  maxSliceMs : Nat := 500
  /-- The length of a measurement of speed in milliseconds. -/
  speedWindowMs : Nat := 1000
  /-- The speed below which a warning is given. -/
  speedWarning : Float32 := 0.99

namespace PacingPolicy

/-- Clock cycles in a millisecond, the fraction dropped. -/
def cyclesPerMs (p : PacingPolicy) : Nat := p.clockHz / 1000

/-- Clock cycles in the longest slice. -/
def maxSliceCycles (p : PacingPolicy) : Nat := p.cyclesPerMs * p.maxSliceMs

/-- The clock cycles of a slice before it is cut. -/
def sliceCycles (p : PacingPolicy) (dt : Nat) : Nat := p.cyclesPerMs * dt

/-- Whether a slice is cut. -/
def isCut (p : PacingPolicy) (dt : Nat) : Bool := p.maxSliceCycles < p.sliceCycles dt

/-- The clock cycles of a slice. -/
def budget (p : PacingPolicy) (dt : Nat) : Nat := min (p.sliceCycles dt) p.maxSliceCycles

end PacingPolicy
end Handheld
