/-!
# The recent past

The last few of a sequence of addresses.  The address with number `n` of the sequence is kept at
place `n` modulo the size of the memory, so each new one takes the place of the oldest.
-/

set_option autoImplicit false

namespace Handheld

/-- The number of addresses that are remembered. -/
def historySize : Nat := 8

/-- The last addresses of a sequence. -/
structure History where
  /-- The length of the whole sequence. -/
  count : Nat := 0
  /-- The last addresses, each at its number modulo the size. -/
  slots : Vector UInt16 historySize := Vector.replicate historySize 0

namespace History

/-- The place of the address with a number. -/
def place (number : Nat) : Fin historySize := ⟨number % historySize, Nat.mod_lt _ (by decide)⟩

/-- The history with an address added. -/
def record (h : History) (a : UInt16) : History :=
  match h with
  | ⟨count, slots⟩ => ⟨count + 1, slots.set (place count).val a (place count).isLt⟩

/-- The number of addresses that are still known. -/
def known (h : History) : Nat := min historySize h.count

/-- The last addresses, oldest first. -/
def recent (h : History) : List UInt16 :=
  (List.range h.known).map fun k ↦ h.slots[place (h.count - h.known + k)]

end History
end Handheld
