import Handheld.Cpu.Core

/-!
# What instructions do

An instruction first fetches its operands and then acts.  `Instruction.fetchOperands` reads what
stands behind the opcode, and the program counter goes on as far as has been read; no length is
looked up.  `Instruction.execute` carries the instruction out on the core after that.  What it costs
is not decided here (`Instruction.cycles`), nor is whether interrupts are let in afterwards: `ei`
only leaves a note, which the step that follows acts on.
-/

set_option autoImplicit false

namespace Handheld
namespace Instruction

variable {β : Type} [Bus β]

/-- The instruction with the operands that stand at the program counter, and the core behind them.
The operands that it had before are not looked at. -/
@[specialize] def fetchOperands (i : Instruction) (s : Core β) : Instruction × Core β :=
  match i with
  | stop _ => s.fetchByte.map stop id
  | loadByte dst _ => s.fetchByte.map (loadByte dst) id
  | loadWord dst _ => s.fetchWord.map (loadWord dst) id
  | storeStackPointer _ => s.fetchWord.map storeStackPointer id
  | storeHigh _ => s.fetchByte.map storeHigh id
  | loadHigh _ => s.fetchByte.map loadHigh id
  | storeAt _ => s.fetchWord.map storeAt id
  | loadAt _ => s.fetchWord.map loadAt id
  | addStackPointer _ => s.fetchByte.map addStackPointer id
  | loadHLStackPointer _ => s.fetchByte.map loadHLStackPointer id
  | aluByte op _ => s.fetchByte.map (aluByte op) id
  | jumpRelative c _ => s.fetchByte.map (jumpRelative c) id
  | jump c _ => s.fetchWord.map (jump c) id
  | call c _ => s.fetchWord.map (call c) id
  | i => (i, s)

/-- An address among the I/O registers, which fill the last page. -/
def highAddress (offset : UInt8) : UInt16 := Word.ofBytes 0xFF offset

/-- The core after a jump, if it is taken. -/
@[inline] def jumpIf (taken : Bool) (target : UInt16) (s : Core β) : Core β :=
  if taken then s.mapRegs fun r ↦ { r with pc := target } else s

/-- The core after an instruction. -/
@[specialize] def execute (i : Instruction) (s : Core β) : Core β :=
  match i with
  | nop => s
  | stop _ => { s with cpu := { s.cpu with runState := .stopped } }
  | halt => { s with cpu := { s.cpu with runState := .halted } }
  | di => { s with cpu := { s.cpu with interruptsEnabled := false, enablePending := false } }
  | ei => { s with cpu := { s.cpu with enablePending := true } }
  | load dst src => s.setByte dst (s.getByte src)
  | loadByte dst v => s.setByte dst v
  | loadWord dst w => s.mapRegs fun r ↦ r.setWord dst w
  | storeStackPointer a =>
    let sp := s.regs.sp
    (s.store a (Word.lo sp)).store (a + 1) (Word.hi sp)
  | loadStackPointer => s.mapRegs fun r ↦ { r with sp := r.hl }
  | storeVia p => (s.store (s.regs.pointed p) s.regs.a).mapRegs fun r ↦ r.movePointer p
  | loadVia p =>
    let v := s.read (s.regs.pointed p)
    s.mapRegs fun r ↦ { r.movePointer p with a := v }
  | storeHigh offset => s.store (highAddress offset) s.regs.a
  | loadHigh offset =>
    let v := s.read (highAddress offset)
    s.mapRegs fun r ↦ { r with a := v }
  | storeHighC => s.store (highAddress s.regs.c) s.regs.a
  | loadHighC =>
    let v := s.read (highAddress s.regs.c)
    s.mapRegs fun r ↦ { r with a := v }
  | storeAt a => s.store a s.regs.a
  | loadAt a =>
    let v := s.read a
    s.mapRegs fun r ↦ { r with a := v }
  | push src => s.push (s.regs.getStacked src)
  | pop dst =>
    let w := s.top
    s.drop.mapRegs fun r ↦ r.setStacked dst w
  | inc operand =>
    let x := Alu.inc s.regs.flags (s.getByte operand)
    (s.mapRegs fun r ↦ { r with flags := x.flags }).setByte operand x.value
  | dec operand =>
    let x := Alu.dec s.regs.flags (s.getByte operand)
    (s.mapRegs fun r ↦ { r with flags := x.flags }).setByte operand x.value
  | incWord operand => s.mapRegs fun r ↦ r.setWord operand (r.getWord operand + 1)
  | decWord operand => s.mapRegs fun r ↦ r.setWord operand (r.getWord operand - 1)
  | addHL src =>
    s.mapRegs fun r ↦
      let x := Alu.addWord r.flags r.hl (r.getWord src)
      { r with flags := x.flags }.setHL x.value
  | addStackPointer offset =>
    s.mapRegs fun r ↦
      let x := Alu.addSigned r.sp offset
      { r with sp := x.value, flags := x.flags }
  | loadHLStackPointer offset =>
    s.mapRegs fun r ↦
      let x := Alu.addSigned r.sp offset
      { r with flags := x.flags }.setHL x.value
  | alu op src =>
    let v := s.getByte src
    s.mapRegs fun r ↦ r.setResult (Alu.apply op r.flags r.a v)
  | aluByte op v => s.mapRegs fun r ↦ r.setResult (Alu.apply op r.flags r.a v)
  | rotateA rotation =>
    s.mapRegs fun r ↦
      let x := Alu.shift (.rotate rotation) r.flags r.a
      { r with a := x.value, flags := { x.flags with z := false } }
  | daa => s.mapRegs fun r ↦ r.setResult (Alu.daa r.flags r.a)
  | cpl => s.mapRegs fun r ↦ { r with a := ~~~r.a, flags := { r.flags with n := true, h := true } }
  | scf => s.mapRegs fun r ↦ { r with flags := { r.flags with n := false, h := false, c := true } }
  | ccf =>
    s.mapRegs fun r ↦ { r with flags := { r.flags with n := false, h := false, c := !r.flags.c } }
  | jumpRelative c offset =>
    jumpIf ((jumpRelative c offset).isTaken s.regs.flags) (s.regs.pc + Word.signExtend offset) s
  | jump c a => jumpIf ((jump c a).isTaken s.regs.flags) a s
  | jumpHL => s.mapRegs fun r ↦ { r with pc := r.hl }
  | call c a =>
    if (call c a).isTaken s.regs.flags then
      (s.push s.regs.pc).mapRegs fun r ↦ { r with pc := a }
    else s
  | ret c =>
    if (ret c).isTaken s.regs.flags then
      let w := s.top
      s.drop.mapRegs fun r ↦ { r with pc := w }
    else s
  | reti =>
    let w := s.top
    let s := s.drop.mapRegs fun r ↦ { r with pc := w }
    { s with cpu := { s.cpu with interruptsEnabled := true, enablePending := false } }
  | restart slot =>
    (s.push s.regs.pc).mapRegs fun r ↦ { r with pc := UInt16.ofNat (8 * slot.val) }
  | shift op operand =>
    let x := Alu.shift op s.regs.flags (s.getByte operand)
    (s.mapRegs fun r ↦ { r with flags := x.flags }).setByte operand x.value
  | testBit n operand =>
    let v := s.getByte operand
    s.mapRegs fun r ↦
      { r with flags := { r.flags with z := !v.toNat.testBit n.val, n := false, h := true } }
  | resetBit n operand =>
    s.setByte operand (s.getByte operand &&& ~~~(1 <<< UInt8.ofNat n.val))
  | setBit n operand => s.setByte operand (s.getByte operand ||| 1 <<< UInt8.ofNat n.val)

end Instruction
end Handheld
