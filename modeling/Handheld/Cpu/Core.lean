import Handheld.Bus
import Handheld.Cpu.Instruction
import Handheld.Cpu.Interrupt

/-!
# The processor and its bus

`Cpu` is the state of the processor itself: registers, the interrupt switch, and whether it runs or
sleeps.  A `Core β` is a processor together with the bus it drives.  Operands are read and written
on a core, since an operand may be in memory.
-/

set_option autoImplicit false

namespace Handheld

/-- Whether the processor works. -/
inductive RunState where
  | running
  /-- Asleep until an enabled interrupt is requested. -/
  | halted
  /-- Asleep until a key is pressed. -/
  | stopped
  deriving DecidableEq

def RunState.name : RunState → String
  | running => "Running"
  | halted => "Halted"
  | stopped => "Stopped"

/-- The state of the processor. -/
structure Cpu where
  regs : Registers := {}
  /-- Interrupts are let in. -/
  interruptsEnabled : Bool := false
  /-- Interrupts are to be let in after the next instruction. -/
  enablePending : Bool := false
  runState : RunState := .running
  vectors : InterruptVectors := .standard

namespace Cpu

/-- A processor about to start at an address. -/
def startingAt (start : UInt16) (vectors : InterruptVectors := .standard) : Cpu :=
  { regs := { pc := start }, vectors }

/-- A processor as the boot program leaves it. -/
def postBoot : Cpu := { regs := Registers.postBoot }

end Cpu

/-- A processor and the bus it drives. -/
structure Core (β : Type) where
  cpu : Cpu
  bus : β

namespace Core

variable {β : Type} [Bus β]

/-- The registers of a core. -/
@[inline] def regs (s : Core β) : Registers := s.cpu.regs

/-- The core with its registers changed. -/
@[inline] def mapRegs (f : Registers → Registers) (s : Core β) : Core β :=
  { s with cpu := { s.cpu with regs := f s.cpu.regs } }

/-- The byte at an address. -/
@[inline] def read (s : Core β) (a : UInt16) : UInt8 := Bus.read s.bus a

/-- The core after storing a byte. -/
@[inline] def store (s : Core β) (a : UInt16) (v : UInt8) : Core β :=
  { s with bus := Bus.write s.bus a v }

/-- Reads the byte at the program counter, and goes on behind it. -/
@[inline] def fetchByte (s : Core β) : UInt8 × Core β :=
  (s.read s.regs.pc, s.mapRegs fun r ↦ { r with pc := r.pc + 1 })

/-- Reads the word at the program counter, and goes on behind it. -/
@[inline] def fetchWord (s : Core β) : UInt16 × Core β :=
  (Bus.readWord s.bus s.regs.pc, s.mapRegs fun r ↦ { r with pc := r.pc + 2 })

/-- Puts a word on the stack: the high byte below the stack pointer, then the low byte below that. -/
def push (s : Core β) (w : UInt16) : Core β :=
  let sp := s.regs.sp
  ((s.store (sp - 1) (Word.hi w)).store (sp - 2) (Word.lo w)).mapRegs
    fun r ↦ { r with sp := sp - 2 }

/-- The word on top of the stack. -/
@[inline] def top (s : Core β) : UInt16 := Bus.readWord s.bus s.regs.sp

/-- Takes the top word off the stack. -/
def drop (s : Core β) : Core β := s.mapRegs fun r ↦ { r with sp := r.sp + 2 }

/-- The value of a byte operand. -/
@[inline] def getByte (s : Core β) : ByteOperand → UInt8
  | .b => s.regs.b
  | .c => s.regs.c
  | .d => s.regs.d
  | .e => s.regs.e
  | .h => s.regs.h
  | .l => s.regs.l
  | .atHL => s.read s.regs.hl
  | .a => s.regs.a

/-- Gives a byte operand a value. -/
@[inline] def setByte (s : Core β) (operand : ByteOperand) (v : UInt8) : Core β :=
  match operand with
  | .b => s.mapRegs fun r ↦ { r with b := v }
  | .c => s.mapRegs fun r ↦ { r with c := v }
  | .d => s.mapRegs fun r ↦ { r with d := v }
  | .e => s.mapRegs fun r ↦ { r with e := v }
  | .h => s.mapRegs fun r ↦ { r with h := v }
  | .l => s.mapRegs fun r ↦ { r with l := v }
  | .atHL => s.store s.regs.hl v
  | .a => s.mapRegs fun r ↦ { r with a := v }

end Core

namespace Registers

/-- The value of a word operand. -/
def getWord (r : Registers) : WordOperand → UInt16
  | .bc => r.bc
  | .de => r.de
  | .hl => r.hl
  | .sp => r.sp

/-- Gives a word operand a value. -/
def setWord (r : Registers) (operand : WordOperand) (w : UInt16) : Registers :=
  match operand with
  | .bc => r.setBC w
  | .de => r.setDE w
  | .hl => r.setHL w
  | .sp => { r with sp := w }

/-- The value of a word that can be put on the stack. -/
def getStacked (r : Registers) : StackOperand → UInt16
  | .bc => r.bc
  | .de => r.de
  | .hl => r.hl
  | .af => r.af

/-- Gives a word that came from the stack its value. -/
def setStacked (r : Registers) (operand : StackOperand) (w : UInt16) : Registers :=
  match operand with
  | .bc => r.setBC w
  | .de => r.setDE w
  | .hl => r.setHL w
  | .af => r.setAF w

/-- The address a pointer stands for. -/
def pointed (r : Registers) : Pointer → UInt16
  | .bc => r.bc
  | .de => r.de
  | .hlUp => r.hl
  | .hlDown => r.hl

/-- The registers after a pointer has been used. -/
def movePointer (r : Registers) (pointer : Pointer) : Registers :=
  match pointer with
  | .bc => r
  | .de => r
  | .hlUp => r.setHL (r.hl + 1)
  | .hlDown => r.setHL (r.hl - 1)

/-- Sets A and the flags to the result of an operation. -/
def setResult (r : Registers) (x : ByteResult) : Registers :=
  { r with a := x.value, flags := x.flags }

end Registers
end Handheld
