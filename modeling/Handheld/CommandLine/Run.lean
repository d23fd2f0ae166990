import Handheld.CommandLine.Images
import Handheld.Emulator

/-!
# Running from the command line

A `Run` lets an emulator tick until the number of frames asked for has been drawn, a breakpoint is
reached or the machine fails.  It collects what is printed, and the pictures of completed frames if
they are wanted.  A tick of one millisecond is far shorter than a frame, so no frame is missed
between two ticks.

`Run.advance` is one tick.  Without a wall clock each tick is a millisecond, and `Run.complete` makes
such ticks until the run is over.  It need not ever be: with slices of no length no time passes.
-/

set_option autoImplicit false

namespace Handheld

/-- What an observer of a run prints: where a breakpoint was reached, and the registers there. -/
def breakpointPrinter : Observer (Array String) where
  onBreakpoint m pc lines :=
    (lines.push s!"break at ${Hex.word pc}").push ("  " ++ m.cpu.regs.render)

/-- The line that tells where execution has been. -/
def recentLine (addresses : List UInt16) : String :=
  "  recent: " ++ String.intercalate " " (addresses.map fun a ↦ s!"${Hex.word a}")

/-- The lines of a listing that starts where the machine does. -/
def listing (m : Machine) (count : Nat) : List String :=
  (ListingLine.readMany m.bus count m.cpu.regs.pc).map ListingLine.render

/-- A run in progress. -/
structure Run where
  /-- The emulator; its notes are the lines printed. -/
  emulator : Emulator (Array String)
  /-- The number of frames to draw. -/
  wanted : Nat
  /-- The number of frames that had been begun at the start. -/
  firstFrame : Nat
  /-- The number of frames that had been begun at the last tick. -/
  lastFrame : Nat
  /-- The pictures of the frames completed, if they are wanted. -/
  pictures : Option ByteArray
  /-- A breakpoint has been reached. -/
  stopped : Bool := false
  /-- What has gone wrong. -/
  error : Option MachineError := none

namespace Run

/-- The debugger with breakpoints set, or the first for which there was no room. -/
def setBreakpoints (d : Debugger) : List UInt16 → Except RunError Debugger
  | [] => .ok d
  | a :: rest =>
    match d.addBreakpoint a with
    | (.refused, _) => .error (.tooManyBreakpoints a)
    | (_, d) => setBreakpoints d rest

/-- The run that the options ask for, about to start. -/
def start (o : Options) (m : Machine) (journal : Journal) : Except RunError Run := do
  let debugger ← setBreakpoints {} o.breakpoints
  return {
    emulator :=
      { machine := m, debugger, notes := #[], journal
        policy := { maxSliceMs := o.maxSliceMs }
        observers := [breakpointPrinter] }
    wanted := o.frames
    firstFrame := m.ppu.frameCount
    lastFrame := m.ppu.frameCount
    pictures := o.dump.map fun _ ↦ ByteArray.empty }

/-- The number of frames drawn. -/
def framesDrawn (r : Run) : Nat := r.lastFrame - r.firstFrame

/-- Whether there is nothing more to do. -/
def isOver (r : Run) : Bool := r.stopped || r.error.isSome || r.wanted ≤ r.framesDrawn

/-- The run after the emulator has ticked: keeps the picture if a frame has been completed. -/
def takePicture (r : Run) : Run :=
  let screen := r.emulator.machine.ppu.screen
  let frame := r.emulator.machine.ppu.frameCount
  if frame = r.lastFrame then r
  else { r with lastFrame := frame, pictures := r.pictures.map (· ++ screen.toRgb24) }

/-- The emulator with a line printed. -/
def print (line : String) (e : Emulator (Array String)) : Emulator (Array String) :=
  { e with notes := e.notes.push line }

/-- The run after the emulator has ticked: ends it if execution waits now. -/
def checkStop (r : Run) : Run :=
  if r.emulator.debugger.singleStep then
    let line := recentLine r.emulator.debugger.recent
    { r with emulator := print line r.emulator, stopped := true }
  else r

/-- One tick, unless the run is over. -/
def advance (r : Run) (dt : Nat) : Run :=
  if r.isOver then r
  else
    match r with
    | ⟨emulator, wanted, firstFrame, lastFrame, pictures, stopped, error⟩ =>
      match emulator.tick dt with
      | ⟨.ok _, emulator⟩ =>
        (takePicture ⟨emulator, wanted, firstFrame, lastFrame, pictures, stopped, error⟩).checkStop
      | ⟨.error e, emulator⟩ =>
        ⟨emulator, wanted, firstFrame, lastFrame, pictures, stopped, some e⟩

/-- Ticks of one millisecond until the run is over. -/
def complete (r : Run) : Run := Id.run do
  let mut r := r
  while !r.isOver do
    r := r.advance 1
  return r

/-- The lines printed so far. -/
def lines (r : Run) : List String := r.emulator.notes.toList

/-- What a run has brought forth since it was last asked: lines, pictures, and reports. -/
structure Output where
  lines : List String
  pictures : ByteArray
  reports : List String

/-- Hands over the output and goes on without it. -/
def handOver (r : Run) : Output × Run :=
  let output : Output :=
    { lines := r.lines
      pictures := r.pictures.getD ByteArray.empty
      reports := r.emulator.journal.lines }
  let emulator := { r.emulator with notes := #[], journal := r.emulator.journal.clear }
  (output, { r with emulator, pictures := r.pictures.map fun _ ↦ ByteArray.empty })

/-- What is reported at the end. -/
def closingEvents (r : Run) : List Event :=
  match r.error with
  | none => [.ranFrames r.framesDrawn]
  | some _ => []

/-- The journal at the end. -/
def journal (r : Run) : Journal := r.emulator.journal.noteAll r.closingEvents

end Run
end Handheld
