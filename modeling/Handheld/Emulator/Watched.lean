import Handheld.Debugger
import Handheld.Emulator.Observer
import Handheld.Report

/-!
# A machine under watch

`Watched σ` is a machine together with everything that follows its steps: the debugger, the notes of
the observers, and the journal.  `Watched.step` is a step of the machine after which all of them are
told; `Watched.runSlice` repeats it until a budget of clock cycles is used up or the debugger has
switched to single steps.
-/

set_option autoImplicit false

namespace Handheld

/-- A machine and those who watch it. -/
structure Watched (σ : Type) where
  machine : Machine
  debugger : Debugger := {}
  /-- The notes of the observers. -/
  notes : σ
  journal : Journal := {}

namespace Watched

variable {σ : Type}

/-- The notes after a step, given whether the boot ROM was mapped before it. -/
def notesAfter (observers : List (Observer σ)) (wasMapped : Bool) (m : Machine) (notes : σ) : σ :=
  let notes := Observer.tellStep observers m notes
  if wasMapped && !m.bus.bootRomMapped then Observer.tellUnmapped observers m notes else notes

/-- Stops at a breakpoint: if the machine has come to one, execution waits from now on. -/
def checkBreakpoint (observers : List (Observer σ)) (w : Watched σ) : Watched σ :=
  let pc := w.machine.cpu.regs.pc
  if w.debugger.hasBreakpoint pc then
    { machine := w.machine
      debugger := w.debugger.enableSingleStep
      notes := Observer.tellBreakpoint observers w.machine pc w.notes
      journal := w.journal.note (.breakpointHit pc) }
  else w

/-- One step, after which everyone is told; a step that fails reaches the journal only. -/
def step (observers : List (Observer σ)) (w : Watched σ) : Outcome (Watched σ) Nat :=
  match w with
  | ⟨machine, debugger, notes, journal⟩ =>
    let pc := machine.cpu.regs.pc
    let wasMapped := machine.bus.bootRomMapped
    let journal := machine.noteStep journal
    match machine.step with
    | ⟨.error e, machine⟩ => { answer := .error e, state := ⟨machine, debugger, notes, journal⟩ }
    | ⟨.ok cycles, machine⟩ =>
      let notes := notesAfter observers wasMapped machine notes
      { answer := .ok cycles
        state := checkBreakpoint observers ⟨machine, debugger.record pc, notes, journal⟩ }

/-- A step that succeeds takes time. -/
theorem step_pos {observers : List (Observer σ)} {w : Watched σ} {cycles : Nat}
    (h : (w.step observers).answer = .ok cycles) : 0 < cycles := by
  unfold step at h
  split at h
  rename_i machine _ _ _
  simp only at h
  split at h
  · cases h
  · rename_i heq
    cases h
    exact Machine.step_pos (m := machine) (by rw [heq])

/-- Steps until `elapsed` has come up to the budget or execution has to wait, and answers what
`elapsed` has come up to. -/
def runSlice (observers : List (Observer σ)) (budget : Nat) (w : Watched σ) (elapsed : Nat) :
    Outcome (Watched σ) Nat :=
  if elapsed < budget ∧ w.debugger.singleStep = false then
    match _h : w.step observers with
    | ⟨.error e, w⟩ => { answer := .error e, state := w }
    | ⟨.ok cycles, w⟩ => runSlice observers budget w (elapsed + cycles)
  else { answer := .ok elapsed, state := w }
termination_by budget - elapsed
decreasing_by
  have := step_pos (congrArg Outcome.answer _h)
  omega

/-- Takes key events in order. -/
def applyKeys (w : Watched σ) (events : List InputEvent) : Watched σ :=
  { w with machine := events.foldl Machine.applyKeys w.machine }

/-- The watched machine with events noted in its journal. -/
def noteAll (w : Watched σ) (es : List Event) : Watched σ :=
  { w with journal := w.journal.noteAll es }

end Watched
end Handheld
