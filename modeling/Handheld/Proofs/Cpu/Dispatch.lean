import Handheld.Proofs.Bus.Store
import Handheld.Proofs.Cpu.Stores
import Handheld.Proofs.Cpu.Switches
import Mathlib.Order.Bounds.Defs

/-!
# Serving an interrupt

When interrupts are let in and some are both requested and enabled, the next step serves the most
urgent of them.  `Core.Serves` is all that this step does, on the bus of the handheld: the return
address goes to the stack, and in the request byte the bit of the interrupt that is served is
cleared, and no other.

The stack may be anywhere.  A return address that is pushed onto the request byte, or onto a
register that does something when it is stored to, has the effect of any store; but the request byte
itself is written last, from the value it had before the pushes, so the requests come out right in
any case (`Core.serves_of_pending`).
-/

set_option autoImplicit false

namespace Handheld

/-! ## Sources and bits -/

namespace Interrupt

theorem testBit_mask (source : Interrupt) (k : Nat) :
    source.mask.toNat.testBit k = decide (source.index.val = k) := by
  have hmask : source.mask.toNat = 2 ^ source.index.val := by cases source <;> rfl
  rw [hmask, Nat.testBit_two_pow]

theorem testBit_and_five (requests : UInt8) (k : Nat) :
    (requests &&& 0x1F).toNat.testBit k = (requests.toNat.testBit k && decide (k < 5)) := by
  rw [UInt8.toNat_and, Nat.testBit_and]
  exact congrArg (requests.toNat.testBit k && ·) (Nat.testBit_two_pow_sub_one 5 k)

/-- Below 32 there are five bits. -/
theorem lt_five_of_testBit {requests : UInt8} (h : requests ≤ 0x1F) {k : Nat}
    (hk : requests.toNat.testBit k) : k < 5 := by
  have hge : 2 ^ k ≤ requests.toNat := Nat.ge_two_pow_of_testBit hk
  have hle : requests.toNat ≤ 31 := UInt8.le_iff_toNat_le.1 h
  refine Nat.lt_of_not_le fun h5 ↦ ?_
  have hpow : 2 ^ 5 ≤ 2 ^ k := Nat.pow_le_pow_right (by decide) h5
  omega

/-- Requesting an interrupt sets its bit. -/
theorem testBit_or_mask (requests : UInt8) (source : Interrupt) (k : Nat) :
    (requests ||| source.mask).toNat.testBit k =
      (requests.toNat.testBit k || decide (source.index.val = k)) := by
  rw [UInt8.toNat_or, Nat.testBit_or, testBit_mask]

/-- Taking a request back leaves the other four sources as they are. -/
theorem testBit_and_not_mask (requests : UInt8) (source : Interrupt) (k : Nat) :
    (requests &&& 0x1F &&& ~~~source.mask).toNat.testBit k ↔
      k < 5 ∧ k ≠ source.index.val ∧ requests.toNat.testBit k := by
  have hnot : (~~~source.mask).toNat.testBit k =
      (decide (k < 8) && !decide (source.index.val = k)) := by
    rw [← testBit_mask]
    show (~~~source.mask.toBitVec).toNat.testBit k = (_ && !source.mask.toBitVec.toNat.testBit k)
    rw [BitVec.testBit_toNat, BitVec.testBit_toNat, BitVec.getLsbD_not]
  rw [UInt8.toNat_and, Nat.testBit_and, testBit_and_five, hnot]
  simp only [Bool.and_eq_true, decide_eq_true_eq, Bool.not_eq_true', decide_eq_false_iff_not]
  constructor
  · rintro ⟨⟨hb, h5⟩, -, hk⟩
    exact ⟨h5, Ne.symm hk, hb⟩
  · rintro ⟨h5, hk, hb⟩
    exact ⟨⟨hb, h5⟩, by omega, Ne.symm hk⟩

/-- The most urgent source is that of the lowest bit. -/
theorem isLeast_index {requests : UInt8} {source : Interrupt} (h : first? requests = some source) :
    IsLeast {k | requests.toNat.testBit k} source.index.val := by
  have hleast : requests.toNat.testBit source.index.val ∧
      ∀ k < source.index.val, ¬requests.toNat.testBit k := by
    revert requests
    cases source <;> decide +kernel
  refine ⟨hleast.1, fun k hk ↦ Nat.le_of_not_lt fun hlt ↦ hleast.2 k hlt hk⟩

theorem first?_eq_none_iff {requests : UInt8} : first? requests = none ↔ requests &&& 0x1F = 0 := by
  revert requests
  decide +kernel

end Interrupt

/-! ## What is pending -/

namespace SystemBus

/-- The processor reads a register as it is set, the request byte apart. -/
theorem read_register (bus : SystemBus) {r : IoRegister} (h : r ≠ .interruptFlag) :
    bus.read r.address = bus.get r :=
  bus.read_of_le (le_address r) (mt IoRegister.address_inj.1 h)

end SystemBus

namespace Core

theorem first?_pending_eq_none_iff {β : Type} [Bus β] {s : Core β} :
    Interrupt.first? s.pending = none ↔ s.pending = 0 := by
  rw [Interrupt.first?_eq_none_iff, pending, UInt8.and_assoc, UInt8.and_self]

/-- The request byte reads with its unused bits set. -/
theorem read_interruptFlag (s : Core SystemBus) :
    s.read interruptFlagAddress = s.bus.get .interruptFlag ||| 0xE0 := rfl

theorem pending_eq (s : Core SystemBus) :
    s.pending = s.bus.get .interruptEnable &&& s.bus.get .interruptFlag &&& 0x1F := by
  have hlow : ∀ b : UInt8, (b ||| 0xE0) &&& 0x1F = b &&& 0x1F := by decide +kernel
  have hie : s.read interruptEnableAddress = s.bus.get .interruptEnable :=
    s.bus.read_register (r := .interruptEnable) (by decide)
  rw [pending, hie, read_interruptFlag, UInt8.and_assoc, hlow, UInt8.and_assoc]

/-! ## The dispatch -/

/-- The interrupts that are requested and enabled, by their bits. -/
def pendingBits (s : Core SystemBus) : Set Nat :=
  {k | (s.bus.get .interruptEnable &&& s.bus.get .interruptFlag &&& 0x1F).toNat.testBit k}

/-- The next step serves an interrupt: all that it does, and that it is the most urgent one. -/
structure Serves (s : Core SystemBus) (source : Interrupt) : Prop where
  isLeast : IsLeast s.pendingBits source.index.val
  answer : s.step.answer = .ok 20
  /-- Stack pointer and program counter apart, the registers stay as they are. -/
  cpu : s.step.state.cpu =
    { s.cpu with
      regs := { s.cpu.regs with sp := s.cpu.regs.sp - 2, pc := s.cpu.vectors.get source.index }
      interruptsEnabled := false
      runState := .running }
  /-- The return address goes to the stack, the high byte first. -/
  stores : ∃ v, s.stores =
    [(s.cpu.regs.sp - 1, Word.hi s.cpu.regs.pc), (s.cpu.regs.sp - 2, Word.lo s.cpu.regs.pc),
      (interruptFlagAddress, v)]
  /-- After that the request is taken back, and nothing else happens to the bus. -/
  bus : s.step.state.bus =
    ((s.bus.write (s.cpu.regs.sp - 1) (Word.hi s.cpu.regs.pc)).write (s.cpu.regs.sp - 2)
        (Word.lo s.cpu.regs.pc)).set .interruptFlag
      (s.bus.get .interruptFlag &&& 0x1F &&& ~~~source.mask)
  requests : ∀ k, (s.step.state.bus.get .interruptFlag).toNat.testBit k ↔
    k < 5 ∧ k ≠ source.index.val ∧ (s.bus.get .interruptFlag).toNat.testBit k

/-- A dispatch serves its interrupt. -/
theorem serves_of_dispatch {s : Core SystemBus} {source : Interrupt}
    (h : s.nextAction = .dispatch source) : s.Serves source := by
  have hstores := stores_dispatch h
  have hbyte : (s.read interruptFlagAddress &&& ~~~source.mask) &&& 0x1F =
      s.bus.get .interruptFlag &&& 0x1F &&& ~~~source.mask := by
    rw [read_interruptFlag]
    generalize s.bus.get .interruptFlag = requests
    revert requests
    cases source <;> decide +kernel
  have hbus : s.step.state.bus =
      ((s.bus.write (s.cpu.regs.sp - 1) (Word.hi s.cpu.regs.pc)).write (s.cpu.regs.sp - 2)
          (Word.lo s.cpu.regs.pc)).set .interruptFlag
        (s.bus.get .interruptFlag &&& 0x1F &&& ~~~source.mask) := by
    rw [step_bus, hstores, ← hbyte]
    rfl
  refine ⟨?_, ?_, ?_, ?_, hbus, fun k ↦ ?_⟩
  · have hleast := Interrupt.isLeast_index (nextAction_eq_dispatch_iff.1 h).2
    rw [pending_eq] at hleast
    exact hleast
  · rw [step, h]
    rfl
  · rw [step, h]
    rfl
  · exact ⟨_, hstores⟩
  · rw [hbus, SystemBus.get_set_self, Interrupt.testBit_and_not_mask]

/-- **When an interrupt is requested, enabled and let in, the next step serves the most urgent
one.** -/
theorem serves_of_pending {s : Core SystemBus} (hon : s.cpu.interruptsEnabled = true)
    (h : s.bus.get .interruptEnable &&& s.bus.get .interruptFlag &&& 0x1F ≠ 0) :
    ∃ source, s.nextAction = .dispatch source ∧ s.Serves source := by
  have hsome : Interrupt.first? s.pending ≠ none := by
    intro hnone
    rw [pending_eq, Interrupt.first?_eq_none_iff, UInt8.and_assoc, UInt8.and_self] at hnone
    exact h hnone
  obtain ⟨source, hsource⟩ := Option.ne_none_iff_exists'.1 hsome
  have hd := nextAction_eq_dispatch_iff.2 ⟨hon, hsource⟩
  exact ⟨source, hd, serves_of_dispatch hd⟩

end Core
end Handheld
