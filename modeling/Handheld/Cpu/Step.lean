import Handheld.Cpu.Encoding
import Handheld.Cpu.Execution
import Handheld.Error

/-!
# One step of the processor

A step does one of five things, and which one is decided before anything changes:
`Core.nextAction` looks at the requests, at the switch that lets interrupts in and at the state of
sleep, and names the action; `Core.perform` carries it out.  So what a step *is* can be spoken of
apart from what it leaves behind.

The rules that decide are these.

* **Interrupts first.**  When an enabled interrupt is requested and interrupts are let in, the step
  is a dispatch, whatever the processor was doing.
* **Halt** ends as soon as an enabled interrupt is requested, let in or not; until then the step is
  idle.
* **Stop** ends when a key line in the joypad register is low, and that is all the step does.
* Otherwise the step is the instruction at the program counter, if the byte there means anything.

The instruction is fetched piece by piece, the opcode first and then the operands that it asks for,
and with each piece the program counter moves on (`Core.fetch`).
-/

set_option autoImplicit false

namespace Handheld

/-- Where the request byte of the interrupts stands. -/
def interruptFlagAddress : UInt16 := 0xFF0F

/-- Where the enable byte of the interrupts stands. -/
def interruptEnableAddress : UInt16 := 0xFFFF

/-- Where the joypad register stands. -/
def joypadAddress : UInt16 := 0xFF00

/-- The clock cycles of a step spent asleep. -/
def idleCycles : Nat := 4

/-- The clock cycles of going to an interrupt handler. -/
def dispatchCycles : Nat := 20

/-- What a step is about to do. -/
inductive Action where
  /-- Go to the handler of an interrupt. -/
  | dispatch (source : Interrupt)
  /-- Stay asleep. -/
  | idle
  /-- Wake from stop. -/
  | leaveStop
  /-- Carry out an instruction. -/
  | execute (instruction : Instruction)
  /-- Fail on a byte that begins no instruction. -/
  | reject (opcode : UInt8)

namespace Core

variable {β : Type} [Bus β]

/-- The interrupts that are both requested and enabled. -/
@[inline] def pending (s : Core β) : UInt8 :=
  s.read interruptEnableAddress &&& s.read interruptFlagAddress &&& 0x1F

/-- Fetches the instruction at the program counter, and goes on behind it.  The program counter is
put back if the byte there begins no instruction. -/
@[specialize] def fetch (s : Core β) : Option Instruction × Core β :=
  let (opcode, t) := s.fetchByte
  if opcode = Instruction.extensionPrefix then
    let (opcode, t) := t.fetchByte
    (some (Instruction.decodeExtended opcode.toNat), t)
  else
    match Instruction.ofOpcode? opcode with
    | some i => (i.fetchOperands t).map some id
    | none => (none, s)

/-- What the bytes at the program counter ask for. -/
@[inline] def fetchAction (s : Core β) : Action :=
  match s.fetch.1 with
  | some i => .execute i
  | none => .reject (s.read s.regs.pc)

/-- A stopped processor wakes when one of the four key lines is low. -/
@[inline] def stoppedAction (s : Core β) : Action :=
  if s.read joypadAddress &&& 0x0F = 0x0F then .idle else .leaveStop

/-- What the next step is going to do. -/
@[specialize] def nextAction (s : Core β) : Action :=
  match Interrupt.first? s.pending, s.cpu.interruptsEnabled, s.cpu.runState with
  | some source, true, _ => .dispatch source
  | _, _, .stopped => s.stoppedAction
  | none, _, .halted => .idle
  | _, _, _ => s.fetchAction

/-- Interrupts are let in after the instruction that follows `ei`, unless that instruction has
called it off. -/
def settleEnable (wasPending : Bool) (cpu : Cpu) : Cpu :=
  if wasPending && cpu.enablePending then
    { cpu with interruptsEnabled := true, enablePending := false }
  else cpu

/-- The core in the running state. -/
@[inline] def awake (s : Core β) : Core β := { s with cpu := { s.cpu with runState := .running } }

/-- Goes to an interrupt handler.  The request is taken back after the return address has been
pushed, in the byte that was read before, so a push that lands on the request byte is undone. -/
def dispatch (source : Interrupt) (s : Core β) : Core β :=
  let requests := s.read interruptFlagAddress
  let vector := s.cpu.vectors[source.index]
  let s := { s with cpu := { s.cpu with interruptsEnabled := false, runState := .running } }
  ((s.push s.regs.pc).store interruptFlagAddress (requests &&& ~~~source.mask)).mapRegs
    fun r ↦ { r with pc := vector }

/-- Carries out the instruction at the program counter, once it has been fetched. -/
@[specialize] def executeFetched (i : Instruction) (s : Core β) : Core β :=
  let wasPending := s.cpu.enablePending
  let s := i.execute s.awake.fetch.2
  { s with cpu := settleEnable wasPending s.cpu }

/-- Carries out an action. -/
@[specialize] def perform (s : Core β) : Action → Outcome (Core β) Nat
  | .dispatch source => { answer := .ok dispatchCycles, state := s.dispatch source }
  | .idle => { answer := .ok idleCycles, state := s }
  | .leaveStop => { answer := .ok idleCycles, state := s.awake }
  | .execute i => { answer := .ok (i.cycles (i.isTaken s.regs.flags)), state := s.executeFetched i }
  | .reject opcode =>
    { answer := .error (.unknownOpcode opcode s.regs.pc), state := s.awake }

/-- One step: the clock cycles it took, and the core after it. -/
@[specialize] def step (s : Core β) : Outcome (Core β) Nat := s.perform s.nextAction

end Core
end Handheld
