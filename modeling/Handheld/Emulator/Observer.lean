import Handheld.Machine

/-!
# Observers

An observer is told what happens to a machine while it runs: each step, the end of the boot ROM, and
each breakpoint reached.  What observers make of it is kept in one common value, the notes, of
whatever type suits them.  They see the machine but have no way to change it.
-/

set_option autoImplicit false

namespace Handheld

/-- What is done with the notes on each occasion; nothing, unless said otherwise. -/
structure Observer (σ : Type) where
  /-- After a step. -/
  onStep : Machine → σ → σ := fun _ notes ↦ notes
  /-- After the step in which the boot ROM was switched off. -/
  onBootRomUnmapped : Machine → σ → σ := fun _ notes ↦ notes
  /-- After the step that has reached a breakpoint. -/
  onBreakpoint : Machine → UInt16 → σ → σ := fun _ _ notes ↦ notes

namespace Observer

variable {σ : Type}

/-- Tells all observers of a step. -/
def tellStep (observers : List (Observer σ)) (m : Machine) (notes : σ) : σ :=
  observers.foldl (fun notes o ↦ o.onStep m notes) notes

/-- Tells all observers that the boot ROM has been switched off. -/
def tellUnmapped (observers : List (Observer σ)) (m : Machine) (notes : σ) : σ :=
  observers.foldl (fun notes o ↦ o.onBootRomUnmapped m notes) notes

/-- Tells all observers of a breakpoint. -/
def tellBreakpoint (observers : List (Observer σ)) (m : Machine) (a : UInt16) (notes : σ) : σ :=
  observers.foldl (fun notes o ↦ o.onBreakpoint m a notes) notes

end Observer
end Handheld
