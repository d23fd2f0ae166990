import Handheld.Proofs.Cpu.Fetching

/-!
# The stores of a step

A processor acts on its bus by stores alone.  `Core.stores` are the stores of the next step, in
order, as a recording bus takes them down, and `Core.step_bus` says that the bus after the step is
the bus before it with these stores carried out.  So a question about what a step does to the bus is
a question about the list.

There are two facts behind this, each a statement about all instructions.  Recording does not change
what is recorded (`Core.step_forget`); and what stores preserve, a step preserves
(`Core.step_bus_of`), which is used for the property that the record is complete.
-/

set_option autoImplicit false

namespace Handheld

variable {β : Type} [Bus β]

/-- The bus after some stores, in order. -/
def Bus.replay (bus : β) (stores : List (UInt16 × UInt8)) : β :=
  stores.foldl (fun bus store ↦ Bus.write bus store.1 store.2) bus

/-! ## What stores preserve -/

section Preserved

variable {P : β → Prop}

theorem Core.setByte_bus_of (hw : ∀ bus a v, P bus → P (Bus.write bus a v)) (s : Core β)
    (operand : ByteOperand) (v : UInt8) (h : P s.bus) : P (s.setByte operand v).bus := by
  cases operand with
  | atHL => exact hw _ _ _ h
  | _ => exact h

theorem Core.push_bus_of (hw : ∀ bus a v, P bus → P (Bus.write bus a v)) (s : Core β) (w : UInt16)
    (h : P s.bus) : P (s.push w).bus :=
  hw _ _ _ (hw _ _ _ h)

/-- An instruction preserves what stores preserve. -/
theorem Instruction.execute_bus_of (hw : ∀ bus a v, P bus → P (Bus.write bus a v))
    (i : Instruction) (s : Core β) (h : P s.bus) : P (i.execute s).bus := by
  cases i with
  | load dst src => exact Core.setByte_bus_of hw s dst _ h
  | loadByte dst v => exact Core.setByte_bus_of hw s dst v h
  | inc operand => exact Core.setByte_bus_of hw _ operand _ h
  | dec operand => exact Core.setByte_bus_of hw _ operand _ h
  | shift op operand => exact Core.setByte_bus_of hw _ operand _ h
  | resetBit n operand => exact Core.setByte_bus_of hw s operand _ h
  | setBit n operand => exact Core.setByte_bus_of hw s operand _ h
  | storeStackPointer a => exact hw _ _ _ (hw _ _ _ h)
  | storeVia p => exact hw _ _ _ h
  | storeHigh offset => exact hw _ _ _ h
  | storeHighC => exact hw _ _ _ h
  | storeAt a => exact hw _ _ _ h
  | push src => exact Core.push_bus_of hw s _ h
  | restart slot => exact Core.push_bus_of hw s _ h
  | call c a =>
    rw [execute]
    split
    · exact Core.push_bus_of hw s _ h
    · exact h
  | jumpRelative c offset =>
    rw [execute, jumpIf]
    split <;> exact h
  | jump c a =>
    rw [execute, jumpIf]
    split <;> exact h
  | ret c =>
    rw [execute]
    split <;> exact h
  | _ => exact h

/-- A step preserves what stores preserve. -/
theorem Core.step_bus_of (hw : ∀ bus a v, P bus → P (Bus.write bus a v)) (s : Core β)
    (h : P s.bus) : P s.step.state.bus := by
  rw [step]
  cases s.nextAction with
  | dispatch source => exact hw _ _ _ (push_bus_of hw _ _ h)
  | execute i =>
    refine i.execute_bus_of hw _ ?_
    rw [fetch_bus]
    exact h
  | _ => exact h

end Preserved

/-! ## Recording -/

namespace Core

/-- The core without the record. -/
def forget (s : Core (Recorded β)) : Core β := ⟨s.cpu, s.bus.bus⟩

/-- The core on a bus that records what it takes from now on. -/
def recording (s : Core β) : Core (Recorded β) := ⟨s.cpu, { bus := s.bus }⟩

theorem setByte_forget (s : Core (Recorded β)) (operand : ByteOperand) (v : UInt8) :
    (s.setByte operand v).forget = s.forget.setByte operand v := by
  cases operand <;> rfl

theorem getByte_forget (s : Core (Recorded β)) (operand : ByteOperand) :
    s.forget.getByte operand = s.getByte operand := by
  cases operand <;> rfl

/-- An instruction does the same on a bus that records. -/
theorem execute_forget (i : Instruction) (s : Core (Recorded β)) :
    (i.execute s).forget = i.execute s.forget := by
  cases i with
  | load dst src => exact (setByte_forget s dst _).trans (by rw [← getByte_forget]; rfl)
  | loadByte dst v => exact setByte_forget s dst v
  | inc operand => exact (setByte_forget _ operand _).trans (by rw [← getByte_forget]; rfl)
  | dec operand => exact (setByte_forget _ operand _).trans (by rw [← getByte_forget]; rfl)
  | shift op operand => exact (setByte_forget _ operand _).trans (by rw [← getByte_forget]; rfl)
  | resetBit n operand => exact (setByte_forget s operand _).trans (by rw [← getByte_forget]; rfl)
  | setBit n operand => exact (setByte_forget s operand _).trans (by rw [← getByte_forget]; rfl)
  | alu op src => cases src <;> rfl
  | testBit n operand => cases operand <;> rfl
  | jumpRelative c offset => exact apply_ite forget _ _ _
  | jump c a => exact apply_ite forget _ _ _
  | call c a => exact apply_ite forget _ _ _
  | ret c => exact apply_ite forget _ _ _
  | _ => rfl

theorem nextAction_forget (s : Core (Recorded β)) : s.forget.nextAction = s.nextAction := by
  have hfetch : s.forget.fetchAction = s.fetchAction := fetchAction_congr rfl rfl
  rw [nextAction, nextAction, hfetch]
  rfl

/-- **A step does the same on a bus that records.** -/
theorem step_forget (s : Core (Recorded β)) : s.step.state.forget = s.forget.step.state := by
  cases h : s.nextAction with
  | execute i =>
    rw [step_of_execute h, step_of_execute ((nextAction_forget s).trans h)]
    show Core.mk (settleEnable _ (i.execute _).forget.cpu) (i.execute _).forget.bus = _
    rw [execute_forget]
    rfl
  | _ =>
    rw [step, step, nextAction_forget, h]
    rfl

/-! ## The record -/

/-- The stores of the next step, in order. -/
def stores (s : Core β) : List (UInt16 × UInt8) := s.recording.step.state.bus.stores.toList

/-- **The stores are all that a step does to the bus.** -/
theorem step_bus (s : Core β) : s.step.state.bus = Bus.replay s.bus s.stores := by
  have hrecord : s.recording.step.state.bus.bus = Bus.replay s.bus s.stores := by
    refine step_bus_of (P := fun r ↦ r.bus = Bus.replay s.bus r.stores.toList) ?_ s.recording rfl
    intro r a v h
    show Bus.write r.bus a v = Bus.replay s.bus (r.stores.push (a, v)).toList
    rw [h, Bus.replay, Bus.replay, Array.toList_push, List.foldl_append]
    rfl
  rw [← hrecord]
  exact (congrArg Core.bus (step_forget s.recording)).symm

/-- They are those of the action that comes next. -/
theorem stores_eq (s : Core β) :
    s.stores = (s.recording.perform s.nextAction).state.bus.stores.toList := by
  rw [stores, step, ← nextAction_forget]
  rfl

/-- A dispatch stores the return address, the high byte first, and then the request byte. -/
theorem stores_dispatch {s : Core β} {source : Interrupt} (h : s.nextAction = .dispatch source) :
    s.stores =
      [(s.regs.sp - 1, Word.hi s.regs.pc), (s.regs.sp - 2, Word.lo s.regs.pc),
        (interruptFlagAddress, s.read interruptFlagAddress &&& ~~~source.mask)] := by
  rw [stores_eq, h]
  rfl

theorem stores_execute {s : Core β} {i : Instruction} (h : s.nextAction = .execute i) :
    s.stores = (s.recording.run i).bus.stores.toList := by
  have hrecording : s.recording.nextAction = .execute i := by
    rw [← nextAction_forget]
    exact h
  rw [stores, step_of_execute hrecording]

end Core
end Handheld
