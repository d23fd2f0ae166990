import Handheld.Proofs.Cpu.Switches

/-!
# Where the program goes on

The program counter after an instruction is the address behind it, or, when the instruction is a
branch that is taken, the target of the branch.  `Instruction.execute_pc` says so of all
instructions in one equation, and `Core.step_pc` of the step that carries the instruction out.
-/

set_option autoImplicit false

namespace Handheld

variable {β : Type} [Bus β]

namespace Instruction

/-- Whether an instruction can make the program go on elsewhere than behind it. -/
def isBranch : Instruction → Bool
  | jumpRelative .. | jump .. | jumpHL | call .. | ret _ | reti | restart _ => true
  | _ => false

/-- Where a branch leads when it is taken, on a core whose program counter stands behind it.  An
instruction that is no branch leads there too. -/
def target (i : Instruction) (s : Core β) : UInt16 :=
  match i with
  | jumpRelative _ offset => s.regs.pc + Word.signExtend offset
  | jump _ a | call _ a => a
  | jumpHL => s.regs.hl
  | ret _ | reti => s.top
  | restart slot => UInt16.ofNat (8 * slot.val)
  | _ => s.regs.pc

theorem target_of_not_isBranch {i : Instruction} (h : i.isBranch = false) (s : Core β) :
    i.target s = s.regs.pc := by
  cases i <;> first | rfl | cases h

/-! ## Operands and the program counter -/

theorem setByte_pc (s : Core β) (operand : ByteOperand) (v : UInt8) :
    (s.setByte operand v).regs.pc = s.regs.pc := by
  cases operand <;> rfl

theorem setWord_pc (r : Registers) (operand : WordOperand) (w : UInt16) :
    (r.setWord operand w).pc = r.pc := by
  cases operand <;> rfl

theorem setStacked_pc (r : Registers) (operand : StackOperand) (w : UInt16) :
    (r.setStacked operand w).pc = r.pc := by
  cases operand <;> rfl

theorem movePointer_pc (r : Registers) (p : Pointer) : (r.movePointer p).pc = r.pc := by
  cases p <;> rfl

/-- **An instruction leaves the program counter where it is, unless it is a branch that is
taken.** -/
theorem execute_pc (i : Instruction) (s : Core β) :
    (i.execute s).regs.pc = if i.isTaken s.regs.flags then i.target s else s.regs.pc := by
  cases i with
  | load dst src => exact setByte_pc s dst _
  | loadByte dst v => exact setByte_pc s dst v
  | loadWord dst w => exact setWord_pc s.regs dst w
  | inc operand => exact setByte_pc _ operand _
  | dec operand => exact setByte_pc _ operand _
  | incWord operand => exact setWord_pc s.regs operand _
  | decWord operand => exact setWord_pc s.regs operand _
  | shift op operand => exact setByte_pc _ operand _
  | resetBit n operand => exact setByte_pc s operand _
  | setBit n operand => exact setByte_pc s operand _
  | storeVia p => exact movePointer_pc s.regs p
  | loadVia p => exact movePointer_pc s.regs p
  | pop dst => exact setStacked_pc _ dst _
  | jumpRelative c offset => exact apply_ite (fun t : Core β ↦ t.regs.pc) _ _ _
  | jump c a => exact apply_ite (fun t : Core β ↦ t.regs.pc) _ _ _
  | call c a => exact apply_ite (fun t : Core β ↦ t.regs.pc) _ _ _
  | ret c => exact apply_ite (fun t : Core β ↦ t.regs.pc) _ _ _
  | _ => rfl

end Instruction

namespace Core

/-- What a step leaves in the registers is what its instruction leaves there. -/
theorem regs_run (s : Core β) (i : Instruction) :
    (s.run i).regs = (i.execute (s.behind i)).regs :=
  settleEnable_regs _ _

theorem runState_run (s : Core β) (i : Instruction) :
    (s.run i).cpu.runState = (i.execute (s.behind i)).cpu.runState :=
  settleEnable_runState _ _

/-- A processor that runs and serves no interrupt carries out what stands at the program
counter. -/
theorem step_of_fetch {s : Core β} {i : Instruction} (hrunning : s.cpu.runState = .running)
    (hquiet : ∀ source, s.nextAction ≠ .dispatch source)
    (hi : Instruction.fetch? s.bus s.regs.pc = some i) :
    s.step = ⟨.ok (i.cycles (i.isTaken s.regs.flags)), s.run i⟩ :=
  step_of_execute ((nextAction_of_not_dispatch hrunning hquiet).trans (fetchAction_of_fetch hi))

/-- **Where the program goes on after an instruction.** -/
theorem step_pc {s : Core β} {i : Instruction} (h : s.nextAction = .execute i) :
    s.step.state.regs.pc =
      if i.isTaken s.regs.flags then i.target (s.behind i)
      else s.regs.pc + UInt16.ofNat i.length := by
  rw [step_of_execute h]
  show (s.run i).regs.pc = _
  rw [regs_run]
  exact i.execute_pc (s.behind i)

/-- What is no branch is followed by what stands behind it. -/
theorem step_pc_of_not_isBranch {s : Core β} {i : Instruction} (h : s.nextAction = .execute i)
    (hi : i.isBranch = false) : s.step.state.regs.pc = s.regs.pc + UInt16.ofNat i.length := by
  rw [step_pc h, Instruction.target_of_not_isBranch hi]
  exact ite_self _

end Core
end Handheld
