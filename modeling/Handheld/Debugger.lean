import Handheld.Debugger.Breakpoints
import Handheld.Debugger.History

/-!
# The debugger

Breakpoints, the single-step switch with the request to make one step, and the history of where
execution has been.  The debugger does not run anything: it is asked whether to, and told what
happened.
-/

set_option autoImplicit false

namespace Handheld

/-- What is known about debugging an execution. -/
structure Debugger where
  breakpoints : Breakpoints := {}
  /-- Execution waits for requests. -/
  singleStep : Bool := false
  /-- One step has been asked for. -/
  stepRequested : Bool := false
  history : History := {}

namespace Debugger

/-- Sets a breakpoint. -/
def addBreakpoint (d : Debugger) (a : UInt16) : Placement × Debugger :=
  let (placement, breakpoints) := d.breakpoints.add a
  (placement, { d with breakpoints })

/-- Clears a breakpoint, or sets it if it is not there. -/
def toggleBreakpoint (d : Debugger) (a : UInt16) : Placement × Debugger :=
  let (placement, breakpoints) := d.breakpoints.toggle a
  (placement, { d with breakpoints })

/-- Whether there is a breakpoint at an address. -/
@[inline] def hasBreakpoint (d : Debugger) (a : UInt16) : Bool := d.breakpoints.contains a

/-- Clears all breakpoints. -/
def clearBreakpoints (d : Debugger) : Debugger := { d with breakpoints := {} }

/-- Makes execution wait for requests. -/
def enableSingleStep (d : Debugger) : Debugger := { d with singleStep := true }

/-- Switches between waiting and running; a request still open is dropped. -/
def toggleSingleStep (d : Debugger) : Debugger :=
  { d with singleStep := !d.singleStep, stepRequested := false }

/-- Asks for one step. -/
def requestStep (d : Debugger) : Debugger := { d with stepRequested := true }

/-- Whether a step has been asked for, and the debugger without the request. -/
def takeRequest (d : Debugger) : Bool × Debugger :=
  (d.stepRequested, { d with stepRequested := false })

/-- Adds an address to the history. -/
@[inline] def record (d : Debugger) (a : UInt16) : Debugger :=
  match d with
  | ⟨breakpoints, singleStep, stepRequested, history⟩ =>
    ⟨breakpoints, singleStep, stepRequested, history.record a⟩

/-- Where execution has been, oldest first. -/
def recent (d : Debugger) : List UInt16 := d.history.recent

end Debugger
end Handheld
