import Handheld.SystemBus

/-!
# The divider and the timer

Both count clock cycles into registers: the divider goes up by one every 256 cycles, the timer
counter at one of four rates while it is switched on.  When the counter overflows it starts again
from the modulo register and asks for an interrupt.  `Timer` holds what the registers do not show,
the cycles since each last went up; a tick adds to them and takes the whole periods off again, one
after the other (`Timer.countOff`).

The remainder of the counter is kept while the timer is switched off and when its rate changes.
-/

set_option autoImplicit false

namespace Handheld

/-- Cycles counted but not yet enough for the registers to move. -/
structure Timer where
  dividerCycles : Nat := 0
  counterCycles : Nat := 0
  deriving DecidableEq

namespace Timer

/-- The cycles in which the divider goes up by one. -/
def dividerPeriod : Nat := 256

/-- The cycles in which the counter goes up by one, from the low two bits of the control register. -/
def counterPeriod (control : UInt8) : Nat :=
  match control.toNat % 4 with
  | 0 => 1024
  | 1 => 16
  | 2 => 64
  | _ => 256

theorem dividerPeriod_pos : 0 < dividerPeriod := by decide

theorem counterPeriod_pos (control : UInt8) : 0 < counterPeriod control := by
  rw [counterPeriod]
  split <;> decide

/-- Whether the control register switches the counter on. -/
def isEnabled (control : UInt8) : Bool := control &&& 0x04 != 0

/-- The divider goes up by one, and after 255 it is zero again. -/
def dividerUp (bus : SystemBus) : SystemBus := bus.set .divider (bus.get .divider + 1)

/-- The counter goes up by one; from 255 it starts again and asks for an interrupt. -/
def countUp (bus : SystemBus) : SystemBus :=
  if bus.get .timerCounter = 0xFF then
    (bus.set .timerCounter (bus.get .timerModulo)).request .timer
  else bus.set .timerCounter (bus.get .timerCounter + 1)

/-- As long as the cycles make a whole period, takes one period off and lets a register go up. -/
def countOff {period : Nat} (hpos : 0 < period) (goUp : SystemBus → SystemBus) (cycles : Nat)
    (bus : SystemBus) : Nat × SystemBus :=
  if _ : period ≤ cycles then countOff hpos goUp (cycles - period) (goUp bus)
  else (cycles, bus)
termination_by cycles

/-- The divider runs for some cycles.  If it was written since it last ran, its remainder is
forgotten first. -/
def tickDivider (timer : Timer) (bus : SystemBus) (cycles : Nat) : Timer × SystemBus :=
  let left := if bus.dividerReset then 0 else timer.dividerCycles
  let (left, bus) :=
    countOff dividerPeriod_pos dividerUp (left + cycles) { bus with dividerReset := false }
  ({ timer with dividerCycles := left }, bus)

/-- The counter runs for some cycles. -/
def tickCounter (timer : Timer) (bus : SystemBus) (cycles : Nat) : Timer × SystemBus :=
  let control := bus.get .timerControl
  if isEnabled control then
    let (left, bus) :=
      countOff (counterPeriod_pos control) countUp (timer.counterCycles + cycles) bus
    ({ timer with counterCycles := left }, bus)
  else (timer, bus)

/-- Both run for some cycles. -/
def tick (timer : Timer) (bus : SystemBus) (cycles : Nat) : Timer × SystemBus :=
  let (timer, bus) := timer.tickDivider bus cycles
  timer.tickCounter bus cycles

end Timer
end Handheld
