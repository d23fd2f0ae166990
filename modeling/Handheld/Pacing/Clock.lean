/-!
# Clocks and the time between readings

A clock shows milliseconds as a 64-bit number.  A `Pacer` remembers the last reading and answers how
much time has passed since, as a 32-bit number: what does not fit is cut off at the largest.
-/

set_option autoImplicit false

namespace Handheld

/-- The largest reading of a clock. -/
def clockEnd : Nat := UInt64.size - 1

/-- The largest time between two readings that a pacer answers. -/
def longestDelta : Nat := UInt32.size - 1

/-- A clock that is moved by hand.  It stops at the largest reading. -/
structure ManualClock where
  now : Nat := 0

/-- The clock moved on by some milliseconds. -/
def ManualClock.advance (c : ManualClock) (ms : Nat) : ManualClock := ⟨min (c.now + ms) clockEnd⟩

/-- The last reading of a clock. -/
structure Pacer where
  last : Nat

namespace Pacer

/-- The milliseconds from the last reading to this one. -/
def elapsed (p : Pacer) (now : Nat) : Nat := min (now - p.last) longestDelta

/-- Takes a reading: the milliseconds since the last one, and the pacer that remembers this one. -/
def read (p : Pacer) (now : Nat) : Nat × Pacer := (p.elapsed now, ⟨now⟩)

end Pacer
end Handheld
