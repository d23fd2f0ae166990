import Handheld.Emulator.Watched
import Handheld.Pacing.Speed

/-!
# The emulator

An emulator runs a machine along with a wall clock.  Each tick stands for some milliseconds; the
pacing policy turns them into a budget of clock cycles, and the machine steps until the budget is
used up.  The last step of a tick usually goes beyond the budget: the excess is the *debt*, with
which the next tick starts.  So over many ticks the machine runs exactly as many cycles as it was
given, up to a part of one step.

A breakpoint ends a tick and makes the emulator wait.  While it waits, time does not count, and a
tick makes at most one step, if one has been asked for.

Key events are delivered at the beginning of a tick, whatever the tick does otherwise.
-/

set_option autoImplicit false

namespace Handheld

/-- A machine that is run along with a wall clock. -/
structure Emulator (σ : Type) extends Watched σ where
  policy : PacingPolicy := {}
  observers : List (Observer σ) := []
  /-- Where key events come from, if there is such a place. -/
  input : Option InputQueue := none
  /-- Clock cycles that have been run ahead. -/
  cycleDebt : Nat := 0
  meter : SpeedMeter := {}

/-- What a tick has done. -/
structure TickReport where
  /-- The clock cycles the tick was given, after cutting. -/
  budget : Nat := 0
  /-- The clock cycles that were run. -/
  cyclesRun : Nat := 0
  /-- The slice was too long and has been cut. -/
  clamped : Bool := false
  /-- The result of a measurement of speed that ended with the tick. -/
  speed : Option Float32 := none

namespace Emulator

variable {σ : Type}

/-- The result of the last measurement of speed. -/
def lastSpeed (e : Emulator σ) : Option Float32 := e.meter.last

/-- Adds an observer, to be told after those already there. -/
def addObserver (e : Emulator σ) (o : Observer σ) : Emulator σ :=
  { e with observers := e.observers ++ [o] }

/-- Delivers the key events that are waiting. -/
def pollInput (e : Emulator σ) : Emulator σ :=
  match e with
  | ⟨watched, policy, observers, some queue, debt, meter⟩ =>
    let (events, queue) := queue.drain
    ⟨watched.applyKeys events, policy, observers, some queue, debt, meter⟩
  | e => e

/-- A tick while execution waits: one step if one has been asked for. -/
def tickWaiting (e : Emulator σ) : Outcome (Emulator σ) TickReport :=
  match e with
  | ⟨⟨machine, debugger, notes, journal⟩, policy, observers, input, debt, meter⟩ =>
    let (requested, debugger) := debugger.takeRequest
    let watched : Watched σ := ⟨machine, debugger, notes, journal⟩
    if requested then
      match watched.step observers with
      | ⟨.ok cycles, watched⟩ =>
        { answer := .ok { cyclesRun := cycles }
          state := ⟨watched, policy, observers, input, debt, meter⟩ }
      | ⟨.error e, watched⟩ =>
        { answer := .error e, state := ⟨watched, policy, observers, input, debt, meter⟩ }
    else { answer := .ok {}, state := ⟨watched, policy, observers, input, debt, meter⟩ }

/-- What cutting a slice reports. -/
def cutEvents (policy : PacingPolicy) (dt : Nat) : List Event :=
  if policy.isCut dt then [.sliceCapped dt policy.maxSliceMs policy.maxSliceCycles] else []

/-- A tick while execution runs freely.  If a step fails the tick ends there, and neither the debt
nor the measurement of speed takes notice of it. -/
def tickRunning (e : Emulator σ) (dt : Nat) : Outcome (Emulator σ) TickReport :=
  match e with
  | ⟨watched, policy, observers, input, debt, meter⟩ =>
    let budget := policy.budget dt
    match (watched.noteAll (cutEvents policy dt)).runSlice observers budget debt with
    | ⟨.error e, watched⟩ =>
      { answer := .error e, state := ⟨watched, policy, observers, input, debt, meter⟩ }
    | ⟨.ok elapsed, watched⟩ =>
      let (speed, meter) := meter.record policy dt budget
      let watched := watched.noteAll (SpeedMeter.events policy speed)
      { answer := .ok { budget, cyclesRun := elapsed - debt, clamped := policy.isCut dt, speed }
        state := ⟨watched, policy, observers, input, elapsed - budget, meter⟩ }

/-- Some milliseconds pass. -/
def tick (e : Emulator σ) (dt : Nat) : Outcome (Emulator σ) TickReport :=
  let e := e.pollInput
  if e.debugger.singleStep then e.tickWaiting
  else if dt = 0 then { answer := .ok {}, state := e }
  else e.tickRunning dt

end Emulator
end Handheld
