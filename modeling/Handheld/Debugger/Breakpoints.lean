import Handheld.Journal

/-!
# The breakpoint table

A bounded set of addresses, kept as a list without repetitions.  Adding to a full table is refused
and leaves it as it is.  Taking an address out moves the last one into its place, so the order of
the list is the order of insertion only as long as nothing has been taken out.
-/

set_option autoImplicit false

namespace Handheld

/-- The addresses at which execution is to stop. -/
structure Breakpoints where
  addresses : List UInt16 := []

/-- What a request to change the table has led to. -/
inductive Placement where
  /-- The address is in the table now. -/
  | set
  /-- The address has been taken out. -/
  | cleared
  /-- The table is full and does not hold the address. -/
  | refused
  deriving DecidableEq

namespace Placement

/-- Whether the address is a breakpoint afterwards. -/
def isSet : Placement → Bool
  | set => true
  | cleared | refused => false

/-- What a change of the table at an address reports. -/
def events (address : UInt16) : Placement → List Event
  | refused => [.breakpointTableFull address]
  | set | cleared => []

end Placement

namespace Breakpoints

/-- The number of addresses that the table has room for. -/
def capacity : Nat := 16

/-- Whether an address is in the table. -/
@[inline] def contains (t : Breakpoints) (a : UInt16) : Bool := t.addresses.contains a

/-- Puts an address into the table. -/
def add (t : Breakpoints) (a : UInt16) : Placement × Breakpoints :=
  if t.contains a then (.set, t)
  else if t.addresses.length < capacity then (.set, ⟨t.addresses ++ [a]⟩)
  else (.refused, t)

/-- The list without the element at a place; the last one takes its place. -/
def removeAt (addresses : List UInt16) (place : Nat) : List UInt16 :=
  match addresses.getLast? with
  | some last => (addresses.set place last).dropLast
  | none => []

/-- Takes an address out of the table if it is there, and puts it in if it is not. -/
def toggle (t : Breakpoints) (a : UInt16) : Placement × Breakpoints :=
  if t.contains a then (.cleared, ⟨removeAt t.addresses (t.addresses.idxOf a)⟩) else t.add a

@[simp] theorem contains_iff (t : Breakpoints) (a : UInt16) :
    t.contains a = true ↔ a ∈ t.addresses := by
  simp [contains]

end Breakpoints
end Handheld
