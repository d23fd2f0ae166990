import Handheld.Proofs.Bus.Registers
import Handheld.Proofs.Cpu.ProgramCounter

/-!
# What instructions do to the flags

The books have a column of four signs for each instruction, one for each flag: it is kept, cleared,
set, or computed from the result.  `Instruction.effects` is that table.  Most instructions have no
entry of their own, since they keep all four flags.

`Instruction.execute_effects` says that the table is right, with one case for each instruction; an
operand may be a register or a byte in memory, and neither of them is a flag
(`Core.flags_setByte`).  What a step leaves in the flags is then what its instruction leaves there
(`Core.flags_of_step`).

The lower half of the byte F is no flag and always zero.  An instruction could only get something
into it by loading the whole byte, and `pop` is the only one that does.
-/

set_option autoImplicit false

namespace Handheld

/-! ## The table -/

/-- What an instruction does to a flag. -/
inductive FlagEffect where
  | kept
  | cleared
  | raised
  /-- The flag tells something of the result. -/
  | computed
  deriving DecidableEq

/-- What an instruction does to each of the flags. -/
structure FlagEffects where
  z : FlagEffect
  n : FlagEffect
  h : FlagEffect
  c : FlagEffect
  deriving DecidableEq

/-- The flag may be so after the instruction if it was so before. -/
def FlagEffect.Allows (effect : FlagEffect) (before after : Bool) : Prop :=
  match effect with
  | kept => after = before
  | cleared => after = false
  | raised => after = true
  | computed => True

/-- The flags may be so after the instruction if they were so before. -/
structure FlagEffects.Allow (effects : FlagEffects) (before after : Flags) : Prop where
  z : effects.z.Allows before.z after.z
  n : effects.n.Allows before.n after.n
  h : effects.h.Allows before.h after.h
  c : effects.c.Allows before.c after.c

/-- All flags are kept. -/
def FlagEffects.none : FlagEffects := ⟨.kept, .kept, .kept, .kept⟩

theorem FlagEffects.none_allow {before after : Flags} :
    none.Allow before after ↔ after = before := by
  obtain ⟨z, n, h, c⟩ := after
  constructor
  · rintro ⟨rfl, rfl, rfl, rfl⟩
    rfl
  · rintro rfl
    exact ⟨rfl, rfl, rfl, rfl⟩

open FlagEffect in
def AluOp.effects : AluOp → FlagEffects
  | add | adc => ⟨computed, cleared, computed, computed⟩
  | sub | sbc | cp => ⟨computed, raised, computed, computed⟩
  | and => ⟨computed, cleared, raised, cleared⟩
  | xor | or => ⟨computed, cleared, cleared, cleared⟩

open FlagEffect in
def ShiftOp.effects : ShiftOp → FlagEffects
  | rotate _ | sla | sra | srl => ⟨computed, cleared, cleared, computed⟩
  | swap => ⟨computed, cleared, cleared, cleared⟩

open FlagEffect in
/-- What an instruction does to the flags. -/
def Instruction.effects : Instruction → FlagEffects
  | alu op _ | aluByte op _ => op.effects
  | inc _ => ⟨computed, cleared, computed, kept⟩
  | dec _ => ⟨computed, raised, computed, kept⟩
  | addHL _ => ⟨kept, cleared, computed, computed⟩
  | addStackPointer _ | loadHLStackPointer _ => ⟨cleared, cleared, computed, computed⟩
  | rotateA _ => ⟨cleared, cleared, cleared, computed⟩
  | daa => ⟨computed, kept, cleared, computed⟩
  | cpl => ⟨kept, raised, raised, kept⟩
  | scf => ⟨kept, cleared, cleared, raised⟩
  | ccf => ⟨kept, cleared, cleared, computed⟩
  | shift op _ => op.effects
  | testBit .. => ⟨computed, cleared, raised, kept⟩
  | pop .af => ⟨computed, computed, computed, computed⟩
  | _ => .none

/-! ## Results -/

theorem Alu.apply_effects (op : AluOp) (flags : Flags) (a v : UInt8) :
    op.effects.Allow flags (apply op flags a v).flags := by
  cases op with
  | and | xor | or => exact ⟨trivial, rfl, rfl, rfl⟩
  | _ => exact ⟨trivial, rfl, trivial, trivial⟩

theorem Alu.shift_effects (op : ShiftOp) (flags : Flags) (v : UInt8) :
    op.effects.Allow flags (shift op flags v).flags := by
  cases op with
  | swap => exact ⟨trivial, rfl, rfl, rfl⟩
  | _ => exact ⟨trivial, rfl, rfl, trivial⟩

/-! ## Operands -/

variable {β : Type} [Bus β]

namespace Core

omit [Bus β] in
theorem flags_jumpIf (taken : Bool) (target : UInt16) (s : Core β) :
    (Instruction.jumpIf taken target s).regs.flags = s.regs.flags := by
  cases taken <;> rfl

theorem flags_setByte (s : Core β) (operand : ByteOperand) (v : UInt8) :
    (s.setByte operand v).regs.flags = s.regs.flags := by
  cases operand <;> rfl

end Core

namespace Registers

theorem flags_setWord (r : Registers) (operand : WordOperand) (w : UInt16) :
    (r.setWord operand w).flags = r.flags := by
  cases operand <;> rfl

theorem flags_movePointer (r : Registers) (p : Pointer) : (r.movePointer p).flags = r.flags := by
  cases p <;> rfl

end Registers

/-! ## Instructions -/

namespace Instruction

open Handheld.Core Registers

/-- **An instruction does to the flags what the table says.** -/
theorem execute_effects (i : Instruction) (s : Core β) :
    i.effects.Allow s.regs.flags (i.execute s).regs.flags := by
  cases i with
  | load dst src => exact FlagEffects.none_allow.2 (flags_setByte s dst _)
  | loadByte dst v => exact FlagEffects.none_allow.2 (flags_setByte s dst v)
  | loadWord dst w => exact FlagEffects.none_allow.2 (flags_setWord s.regs dst w)
  | incWord operand => exact FlagEffects.none_allow.2 (flags_setWord s.regs operand _)
  | decWord operand => exact FlagEffects.none_allow.2 (flags_setWord s.regs operand _)
  | storeVia p => exact FlagEffects.none_allow.2 (flags_movePointer s.regs p)
  | loadVia p => exact FlagEffects.none_allow.2 (flags_movePointer s.regs p)
  | resetBit n operand => exact FlagEffects.none_allow.2 (flags_setByte s operand _)
  | setBit n operand => exact FlagEffects.none_allow.2 (flags_setByte s operand _)
  | pop dst =>
    cases dst with
    | af => exact ⟨trivial, trivial, trivial, trivial⟩
    | _ => exact FlagEffects.none_allow.2 rfl
  | jumpRelative c offset => exact FlagEffects.none_allow.2 (flags_jumpIf _ _ s)
  | jump c a => exact FlagEffects.none_allow.2 (flags_jumpIf _ _ s)
  | call c a | ret c =>
    refine FlagEffects.none_allow.2 ?_
    rw [execute]
    split <;> rfl
  | alu op src => exact Alu.apply_effects op s.regs.flags s.regs.a (s.getByte src)
  | aluByte op v => exact Alu.apply_effects op s.regs.flags s.regs.a v
  | inc operand | dec operand =>
    rw [execute, flags_setByte]
    exact ⟨trivial, rfl, trivial, rfl⟩
  | shift op operand =>
    rw [execute, flags_setByte]
    exact Alu.shift_effects op s.regs.flags (s.getByte operand)
  | addHL src => exact ⟨rfl, rfl, trivial, trivial⟩
  | addStackPointer offset | loadHLStackPointer offset => exact ⟨rfl, rfl, trivial, trivial⟩
  | rotateA rotation => exact ⟨rfl, rfl, rfl, trivial⟩
  | daa => exact ⟨trivial, rfl, rfl, trivial⟩
  | cpl | scf => exact ⟨rfl, rfl, rfl, rfl⟩
  | ccf => exact ⟨rfl, rfl, rfl, trivial⟩
  | testBit n operand => exact ⟨trivial, rfl, rfl, rfl⟩
  | _ => exact FlagEffects.none_allow.2 rfl

/-- The instructions that leave all flags alone: moves of every kind but that of the stack pointer
and a displacement to HL, the stack but for `pop` of AF, counting of words, branches, sleep, the
switch for interrupts, and single bits that are changed. -/
def leavesFlags : Instruction → Bool
  | load .. | loadByte .. | loadWord .. | storeStackPointer _ | loadStackPointer
  | storeVia _ | loadVia _ | storeHighC | loadHighC | storeAt _ | loadAt _
  | storeHigh _ | loadHigh _
  | push _ | pop .bc | pop .de | pop .hl
  | incWord _ | decWord _
  | jumpRelative .. | jump .. | jumpHL | call .. | ret _ | reti | restart _
  | nop | halt | stop _ | di | ei
  | resetBit .. | setBit .. => true
  | _ => false

/-- The instructions that change flags and leave the carry alone. -/
def leavesCarry : Instruction → Bool
  | inc _ | dec _ | testBit .. | cpl => true
  | _ => false

/-- The instructions that change flags and leave the zero flag alone. -/
def leavesZero : Instruction → Bool
  | addHL _ | cpl | scf | ccf => true
  | _ => false

theorem effects_of_leavesFlags {i : Instruction} (h : i.leavesFlags = true) :
    i.effects = .none := by
  cases i with
  | pop dst =>
    cases dst with
    | af => cases h
    | _ => rfl
  | _ => simp_all [leavesFlags, effects]

theorem effects_of_leavesCarry {i : Instruction} (h : i.leavesCarry = true) :
    i.effects.c = .kept := by
  fun_cases leavesCarry i <;> simp_all [leavesCarry, effects]

theorem effects_of_leavesZero {i : Instruction} (h : i.leavesZero = true) :
    i.effects.z = .kept := by
  fun_cases leavesZero i <;> simp_all [leavesZero, effects]

end Instruction

/-! ## Steps -/

/-- A byte that is loaded into F leaves its upper half there. -/
theorem Flags.toByte_ofByte (b : UInt8) : (ofByte b).toByte = b &&& 0xF0 := by
  revert b
  decide +kernel

namespace Core

variable {s : Core β}

/-- A step of a processor that runs and goes to no handler fails unless it carries out an
instruction. -/
theorem exists_run_of_ok (hr : s.cpu.runState = .running)
    (hno : ∀ source, s.nextAction ≠ .dispatch source) {cycles : Nat}
    (hok : s.step.answer = .ok cycles) :
    ∃ i, Instruction.fetch? s.bus s.regs.pc = some i ∧ s.step.state = s.run i := by
  obtain ⟨i, hi, hnext⟩ := exists_fetch_of_step (nextAction_of_not_dispatch hr hno) hok
  exact ⟨i, hi, congrArg Outcome.state (step_of_execute hnext)⟩

/-- **A step leaves the flags alone that its instruction does not set.**  The bus is any bus, and
the processor runs, goes to no interrupt handler and does not fail.  What its instruction does to
the flags is what the table says; in particular it leaves F as it is if it is one of those that
leave all flags alone, and the carry or the zero flag if it is one of those that leave only this
one alone, and `daa` leaves the flag of subtraction.

The lower half of F is zero after every step, whatever the step does.  The byte that `pop` takes off
the stack for F loses its lower half. -/
theorem flags_of_step (hr : s.cpu.runState = .running)
    (hno : ∀ source, s.nextAction ≠ .dispatch source) {cycles : Nat}
    (hok : s.step.answer = .ok cycles) :
    (∃ i, Instruction.fetch? s.bus s.regs.pc = some i ∧
      i.effects.Allow s.regs.flags s.step.state.regs.flags ∧
      (i.leavesFlags = true → s.step.state.regs.f = s.regs.f) ∧
      (i.leavesCarry = true → s.step.state.regs.flags.c = s.regs.flags.c) ∧
      (i.leavesZero = true → s.step.state.regs.flags.z = s.regs.flags.z) ∧
      (i = .daa → s.step.state.regs.flags.n = s.regs.flags.n) ∧
      (i = .pop .af → s.step.state.regs.f = s.read s.regs.sp &&& 0xF0)) ∧
    ∀ t : Core β, t.step.state.regs.f &&& 0x0F = 0 := by
  obtain ⟨i, hi, hstate⟩ := exists_run_of_ok hr hno hok
  have hflags : i.effects.Allow s.regs.flags s.step.state.regs.flags := by
    rw [hstate, regs_run]
    exact i.execute_effects (s.behind i)
  refine ⟨⟨i, hi, hflags, fun hall ↦ ?_, fun hcarry ↦ ?_, fun hzero ↦ ?_, ?_, ?_⟩,
    fun t ↦ t.step.state.regs.flags.toByte_and_low⟩
  · rw [Instruction.effects_of_leavesFlags hall, FlagEffects.none_allow] at hflags
    exact congrArg Flags.toByte hflags
  · have hc := hflags.c
    rwa [Instruction.effects_of_leavesCarry hcarry] at hc
  · have hz := hflags.z
    rwa [Instruction.effects_of_leavesZero hzero] at hz
  · rintro rfl
    exact hflags.n
  · rintro rfl
    rw [hstate, regs_run]
    show (Flags.ofByte (Word.lo (Word.ofBytes _ _))).toByte = _
    rw [Word.lo_ofBytes, Flags.toByte_ofByte]
    rfl

/-- A processor about to count up the byte behind HL, which is `0xFF`; the carry is set, and so is
the flag of subtraction. -/
def countingUp : Core Memory where
  cpu := { regs := { flags := { n := true, c := true }, h := 0xC0 } }
  bus := .ofFn fun a ↦ if a = 0 then 0x34 else 0xFF

theorem fetch_countingUp : Instruction.fetch? countingUp.bus 0 = some (.inc .atHL) := by
  have hread : Bus.read countingUp.bus 0 = 0x34 :=
    Memory.read_ofFn (fun a ↦ if a = 0 then 0x34 else 0xFF) 0
  rw [Instruction.fetch?, hread]
  rfl

/-- The byte overflows and the carry stays, whereas the flag of subtraction is cleared. -/
theorem flags_of_step_countingUp :
    countingUp.cpu.runState = .running ∧
      (∀ source, countingUp.nextAction ≠ .dispatch source) ∧
      countingUp.step.answer = .ok 12 ∧
      countingUp.step.state.regs.flags.c = true ∧ countingUp.step.state.regs.flags.n = false := by
  have hno : ∀ source, countingUp.nextAction ≠ .dispatch source := not_dispatch rfl
  have hok : countingUp.step.answer = .ok 12 :=
    congrArg Outcome.answer (step_of_fetch rfl hno fetch_countingUp)
  obtain ⟨⟨i, hi, heffects, -, hcarry, -⟩, -⟩ := flags_of_step rfl hno hok
  obtain rfl : Instruction.inc .atHL = i := Option.some.inj (fetch_countingUp.symm.trans hi)
  exact ⟨rfl, hno, hok, hcarry rfl, heffects.n⟩

end Core
end Handheld
