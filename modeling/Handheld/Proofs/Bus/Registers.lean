import Handheld.SystemBus

/-!
# What setting an I/O register does

The registers are bytes of the memory image at addresses that differ from each other
(`IoRegister.address_inj`), so setting one leaves the others alone.  The devices touch the bus by
`SystemBus.set` and `SystemBus.request` only: with the lemmas here nothing about them has to look
into the image.

Facts about single bytes are settled by trying all 256 of them (`Byte.forall_iff`).
-/

set_option autoImplicit false

namespace Handheld

/-! ## Bytes -/

namespace Byte

/-- Something holds of all bytes when it holds of the numbers below 256. -/
theorem forall_iff {p : UInt8 → Prop} : (∀ b, p b) ↔ ∀ i : Fin 256, p (UInt8.ofFin i) :=
  ⟨fun h _ ↦ h _, fun h b ↦ h b.toFin⟩

instance decidableForall {p : UInt8 → Prop} [DecidablePred p] : Decidable (∀ b, p b) :=
  decidable_of_iff' _ forall_iff

end Byte

/-- Storing what is there already changes nothing. -/
@[simp] theorem Memory.write_read_self (m : Memory) (a : UInt16) : m.write a (m.read a) = m := by
  ext b
  by_cases h : b = a
  · rw [h, read_write_self]
  · rw [read_write_of_ne m _ h]

/-- Of two stores to an address, the last one stays. -/
theorem Memory.write_write_self (m : Memory) (a : UInt16) (v w : UInt8) :
    (m.write a v).write a w = m.write a w := by
  ext b
  simp only [read_write]
  split <;> rfl

/-- Stores to two addresses can be made in either order. -/
theorem Memory.write_write_of_ne (m : Memory) {a b : UInt16} (v w : UInt8) (h : b ≠ a) :
    (m.write a v).write b w = (m.write b w).write a v := by
  ext c
  simp only [read_write]
  by_cases hb : c = b
  · rw [if_pos hb, if_neg (hb ▸ h), if_pos hb]
  · rw [if_neg hb, if_neg hb]

namespace SystemBus

/-! ## Setting a register -/

theorem peek_poke (bus : SystemBus) (a b : UInt16) (v : UInt8) :
    (bus.poke a v).peek b = if b = a then v else bus.peek b :=
  Memory.read_write bus.memory a b v

theorem peek_poke_of_ne (bus : SystemBus) {a b : UInt16} (v : UInt8) (h : b ≠ a) :
    (bus.poke a v).peek b = bus.peek b := by
  rw [peek_poke, if_neg h]

@[simp] theorem get_set_self (bus : SystemBus) (r : IoRegister) (v : UInt8) :
    (bus.set r v).get r = v :=
  Memory.read_write_self bus.memory r.address v

theorem get_set_of_ne (bus : SystemBus) {r q : IoRegister} (v : UInt8) (h : q ≠ r) :
    (bus.set r v).get q = bus.get q :=
  Memory.read_write_of_ne bus.memory v fun e ↦ h (IoRegister.address_inj.1 e)

/-- Of two values that a register is set to, the last one stays. -/
theorem set_set_self (bus : SystemBus) (r : IoRegister) (v w : UInt8) :
    (bus.set r v).set r w = bus.set r w := by
  show { bus with memory := (bus.memory.write _ v).write _ w } = bus.poke _ w
  rw [Memory.write_write_self]
  rfl

/-- Two registers can be set in either order. -/
theorem set_set_of_ne (bus : SystemBus) {r q : IoRegister} (v w : UInt8) (h : q ≠ r) :
    (bus.set r v).set q w = (bus.set q w).set r v := by
  show { bus with memory := (bus.memory.write _ v).write _ w } = (bus.set q w).poke _ v
  rw [Memory.write_write_of_ne _ v w fun e ↦ h (IoRegister.address_inj.1 e)]
  rfl

/-- Setting a register to the value it has changes nothing. -/
theorem set_get_self (bus : SystemBus) (r : IoRegister) : bus.set r (bus.get r) = bus := by
  show { bus with memory := bus.memory.write r.address (bus.memory.read r.address) } = bus
  rw [Memory.write_read_self]

/-! ## Requesting an interrupt -/

theorem get_request_of_ne (bus : SystemBus) (source : Interrupt) {r : IoRegister}
    (h : r ≠ .interruptFlag) : (bus.request source).get r = bus.get r :=
  get_set_of_ne bus _ h

@[simp] theorem get_interruptFlag_request (bus : SystemBus) (source : Interrupt) :
    (bus.request source).get .interruptFlag = bus.get .interruptFlag ||| source.mask :=
  get_set_self bus _ _

/-- An interrupt can be requested before another register is set or after it. -/
theorem request_set_of_ne (bus : SystemBus) (source : Interrupt) {r : IoRegister} (v : UInt8)
    (h : r ≠ .interruptFlag) : (bus.set r v).request source = (bus.request source).set r v := by
  rw [request, get_set_of_ne _ _ h.symm, set_set_of_ne _ _ _ h.symm, ← request]

/-- Two interrupts can be requested in either order. -/
theorem request_request (bus : SystemBus) (first second : Interrupt) :
    (bus.request first).request second = (bus.request second).request first := by
  rw [request, get_interruptFlag_request, request, set_set_self, request,
    get_interruptFlag_request, request, set_set_self, UInt8.or_assoc, UInt8.or_assoc,
    UInt8.or_comm first.mask]

/-! ## A bus of zeros -/

/-- Memory holds zeros, and there is no boot ROM. -/
structure IsBlank (bus : SystemBus) : Prop where
  peek_eq : ∀ a, bus.peek a = 0
  bootRom_eq : bus.bootRom = none

/-- A bus of zeros.  What is said about it is said of all buses that are blank, so that nothing is
ever computed from an image of 64 KiB. -/
def blank : SystemBus := { memory := .zero, bootRom := none }

theorem isBlank_blank : blank.IsBlank := ⟨Memory.read_zero, rfl⟩

/-- A blank bus reads zero, where anything answers as it stands in memory. -/
theorem IsBlank.read_eq {bus : SystemBus} (h : bus.IsBlank) {a : UInt16} (hu : isUnused a = false)
    (hf : a ≠ IoRegister.interruptFlag.address) : bus.read a = 0 := by
  rw [read, if_neg (by rw [hu]; decide), if_neg hf, behind, h.bootRom_eq]
  exact h.peek_eq _

end SystemBus
end Handheld
