import Handheld.Memory

/-!
# What the processor is wired to

A `Bus` answers reads and takes stores; the processor knows nothing else about the outside.  Reading
has no effect, so the state of a bus changes by stores alone (and by whatever the other devices do
between two steps of the processor).

Two instances live here.  `Memory` itself is the flat bus: plain RAM at every address.  `Recorded β`
is any bus that also keeps the list of stores it has seen, oldest first.
-/

set_option autoImplicit false

namespace Handheld

/-- Something the processor can read bytes from and store bytes to. -/
class Bus (β : Type) where
  read : β → UInt16 → UInt8
  write : β → UInt16 → UInt8 → β

namespace Bus

variable {β : Type} [Bus β]

/-- The word at an address: its low byte there, its high byte at the next address. -/
@[inline] def readWord (bus : β) (a : UInt16) : UInt16 :=
  Word.ofBytes (read bus (a + 1)) (read bus a)

end Bus

/-- Flat memory: every address is plain RAM. -/
instance : Bus Memory := ⟨Memory.read, Memory.write⟩

/-- A bus together with the stores it has taken, oldest first. -/
structure Recorded (β : Type) where
  bus : β
  stores : Array (UInt16 × UInt8) := #[]

instance {β : Type} [Bus β] : Bus (Recorded β) where
  read r a := Bus.read r.bus a
  write r a v := { bus := Bus.write r.bus a v, stores := r.stores.push (a, v) }

end Handheld
