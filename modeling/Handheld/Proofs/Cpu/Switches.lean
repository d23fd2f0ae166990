import Handheld.Proofs.Cpu.Fetching

/-!
# What a step does to the processor, its registers apart

Besides the registers a processor has three things that change: the switch that lets interrupts in,
the note that `ei` leaves for the next instruction, and the state of sleep.  Five instructions touch
them, and `Instruction.execute_cpu` says how; it is one equation for all instructions, so that
nothing else has to go through them one by one.

`Core.nextAction` decides what a step is.  The lemmas on it here go backwards: what must have been
true for a step to be a dispatch (`Core.nextAction_eq_dispatch_iff`), or to be spent asleep.
-/

set_option autoImplicit false

namespace Handheld

/-! ## Instructions -/

namespace Instruction

/-- Whether interrupts are let in after an instruction, if nothing has been noted before it. -/
def enabledAfter (i : Instruction) (before : Bool) : Bool :=
  match i with
  | di => false
  | reti => true
  | _ => before

/-- Whether there is a note to let interrupts in, after an instruction. -/
def pendingAfter (i : Instruction) (before : Bool) : Bool :=
  match i with
  | ei => true
  | di | reti => false
  | _ => before

/-- The state of sleep after an instruction. -/
def runStateAfter (i : Instruction) (before : RunState) : RunState :=
  match i with
  | stop _ => .stopped
  | halt => .halted
  | _ => before

/-- The processor with its registers as they are, and the rest as an instruction leaves it. -/
def switchesAfter (i : Instruction) (cpu : Cpu) (regs : Registers) : Cpu :=
  { cpu with
    regs
    interruptsEnabled := i.enabledAfter cpu.interruptsEnabled
    enablePending := i.pendingAfter cpu.enablePending
    runState := i.runStateAfter cpu.runState }

variable {β : Type} [Bus β]

theorem setByte_cpu (s : Core β) (operand : ByteOperand) (v : UInt8) :
    (s.setByte operand v).cpu = { s.cpu with regs := (s.setByte operand v).cpu.regs } := by
  cases operand <;> rfl

omit [Bus β] in
theorem jumpIf_cpu (taken : Bool) (target : UInt16) (s : Core β) :
    (jumpIf taken target s).cpu = { s.cpu with regs := (jumpIf taken target s).cpu.regs } := by
  cases taken <;> rfl

/-- **What an instruction does to the processor, its registers apart.** -/
theorem execute_cpu (i : Instruction) (s : Core β) :
    (i.execute s).cpu = i.switchesAfter s.cpu (i.execute s).cpu.regs := by
  cases i with
  | load dst src => exact setByte_cpu s dst _
  | loadByte dst v => exact setByte_cpu s dst v
  | inc operand => exact setByte_cpu _ operand _
  | dec operand => exact setByte_cpu _ operand _
  | shift op operand => exact setByte_cpu _ operand _
  | resetBit n operand => exact setByte_cpu s operand _
  | setBit n operand => exact setByte_cpu s operand _
  | jumpRelative c offset => exact jumpIf_cpu _ _ s
  | jump c a => exact jumpIf_cpu _ _ s
  | call c a =>
    rw [execute]
    split <;> rfl
  | ret c =>
    rw [execute]
    split <;> rfl
  | _ => rfl

end Instruction

namespace Core

variable {β : Type} [Bus β] {s : Core β}

/-! ## Which action -/

theorem fetchAction_cases (s : Core β) :
    (∃ i, s.fetchAction = .execute i) ∨ ∃ opcode, s.fetchAction = .reject opcode := by
  cases hi : Instruction.fetch? s.bus s.regs.pc with
  | some i => exact Or.inl ⟨i, fetchAction_of_fetch hi⟩
  | none => exact Or.inr ⟨_, fetchAction_of_fetch_none hi⟩

theorem stoppedAction_cases (s : Core β) :
    s.stoppedAction = .idle ∨ s.stoppedAction = .leaveStop := by
  rw [stoppedAction]
  split
  · exact Or.inl rfl
  · exact Or.inr rfl

/-- A step is a dispatch exactly when interrupts are let in and one is requested and enabled. -/
theorem nextAction_eq_dispatch_iff {source : Interrupt} :
    s.nextAction = .dispatch source ↔
      s.cpu.interruptsEnabled = true ∧ Interrupt.first? s.pending = some source := by
  rw [nextAction]
  split
  · rename_i hp he
    rw [hp, he]
    simp
  · rename_i _ hno
    refine ⟨fun h ↦ ?_, fun h ↦ (hno _ h.2 h.1).elim⟩
    rcases stoppedAction_cases s with hs | hs <;> rw [hs] at h <;> cases h
  · rename_i hp _
    rw [hp]
    simp
  · rename_i hno _ _
    refine ⟨fun h ↦ ?_, fun h ↦ (hno _ h.2 h.1).elim⟩
    rcases fetchAction_cases s with ⟨i, hs⟩ | ⟨opcode, hs⟩ <;> rw [hs] at h <;> cases h

theorem not_dispatch (h : s.cpu.interruptsEnabled = false) (source : Interrupt) :
    s.nextAction ≠ .dispatch source := by
  intro hd
  rw [(nextAction_eq_dispatch_iff.1 hd).1] at h
  cases h

/-- With nothing requested, a processor that runs goes on with its program. -/
theorem nextAction_of_quiet (hp : Interrupt.first? s.pending = none)
    (hr : s.cpu.runState = .running) : s.nextAction = s.fetchAction := by
  rw [nextAction, hp, hr]

/-- With interrupts not let in, a processor that runs goes on with its program in any case. -/
theorem nextAction_of_disabled (he : s.cpu.interruptsEnabled = false)
    (hr : s.cpu.runState = .running) : s.nextAction = s.fetchAction := by
  rw [nextAction, he, hr]
  split
  · contradiction
  · contradiction
  · contradiction
  · rfl

/-- A processor that runs and goes to no handler goes on with its program. -/
theorem nextAction_of_not_dispatch (hr : s.cpu.runState = .running)
    (hno : ∀ source, s.nextAction ≠ .dispatch source) : s.nextAction = s.fetchAction := by
  cases hp : Interrupt.first? s.pending with
  | none => exact nextAction_of_quiet hp hr
  | some source =>
    cases he : s.cpu.interruptsEnabled with
    | true => exact absurd (nextAction_eq_dispatch_iff.2 ⟨he, hp⟩) (hno source)
    | false => exact nextAction_of_disabled he hr

/-- Only a processor that sleeps spends a step asleep or waking from stop. -/
theorem runState_of_nextAction (h : s.nextAction = .idle ∨ s.nextAction = .leaveStop) :
    s.cpu.runState ≠ .running := by
  intro hr
  rw [nextAction, hr] at h
  split at h
  · simp at h
  · contradiction
  · contradiction
  · rcases fetchAction_cases s with ⟨i, hs⟩ | ⟨opcode, hs⟩ <;> rw [hs] at h <;> simp at h

/-! ## What the action leaves -/

/-- With nothing requested, a processor that runs carries out the instruction at the program
counter. -/
theorem nextAction_of_fetch {i : Instruction} (hp : s.pending = 0)
    (hr : s.cpu.runState = .running) (hi : Instruction.fetch? s.bus s.regs.pc = some i) :
    s.nextAction = .execute i := by
  have hquiet : Interrupt.first? s.pending = none := by
    rw [hp]
    rfl
  rw [nextAction_of_quiet hquiet hr, fetchAction_of_fetch hi]

theorem step_of_dispatch {source : Interrupt} (h : s.nextAction = .dispatch source) :
    s.step = ⟨.ok 20, s.dispatch source⟩ := by
  rw [step, h]
  rfl

/-- A processor that goes on with its program, and does not fail, has found an instruction. -/
theorem exists_fetch_of_step (h : s.nextAction = s.fetchAction) {cycles : Nat}
    (hok : s.step.answer = .ok cycles) :
    ∃ i, Instruction.fetch? s.bus s.regs.pc = some i ∧ s.nextAction = .execute i := by
  cases hi : Instruction.fetch? s.bus s.regs.pc with
  | some i => exact ⟨i, rfl, h.trans (fetchAction_of_fetch hi)⟩
  | none =>
    rw [step, h, fetchAction_of_fetch_none hi] at hok
    cases hok

theorem settleEnable_regs (wasPending : Bool) (cpu : Cpu) :
    (settleEnable wasPending cpu).regs = cpu.regs := by
  rw [settleEnable]
  split <;> rfl

theorem settleEnable_runState (wasPending : Bool) (cpu : Cpu) :
    (settleEnable wasPending cpu).runState = cpu.runState := by
  rw [settleEnable]
  split <;> rfl

/-- The switches after an instruction: what `ei` has noted before it is carried out, unless the
instruction has called it off. -/
theorem step_execute_cpu {i : Instruction} (h : s.nextAction = .execute i) :
    s.step.state.cpu =
      settleEnable s.cpu.enablePending
        (i.switchesAfter { s.cpu with runState := .running } (s.step.state.cpu.regs)) := by
  rw [step_of_execute h, run]
  dsimp only
  rw [Instruction.execute_cpu, settleEnable_regs]
  rfl

end Core
end Handheld
