import Handheld.Cpu.Instruction

/-!
# From bytes to instructions

`Instruction.decode` reads an instruction off three bytes, the most that an instruction can take,
and uses as many of them as the instruction has.  Whoever has no more than the opcode yet leaves the
operands blank (`Instruction.ofOpcode?`).

An opcode falls into three fields: the top two bits choose a quarter of the table, the next three
and the last three choose a row and a column of it.  In the second quarter (moves between byte
operands) and the third (arithmetic) both fields are operands, and in the first and the last the
column says what the row means.  The byte `0xCB` stands for a second table, in which the quarter
chooses the operation, the row the bit and the column the operand.  Eleven opcodes mean nothing.
-/

set_option autoImplicit false

namespace Handheld

/-- The operand that a field of three bits names. -/
def ByteOperand.ofField : Nat → ByteOperand
  | 0 => .b
  | 1 => .c
  | 2 => .d
  | 3 => .e
  | 4 => .h
  | 5 => .l
  | 6 => .atHL
  | _ => .a

/-- The operand that a field of two bits names. -/
def WordOperand.ofField : Nat → WordOperand
  | 0 => .bc
  | 1 => .de
  | 2 => .hl
  | _ => .sp

/-- The operand of a stack instruction that a field of two bits names. -/
def StackOperand.ofField : Nat → StackOperand
  | 0 => .bc
  | 1 => .de
  | 2 => .hl
  | _ => .af

/-- The pointer that a field of two bits names. -/
def Pointer.ofField : Nat → Pointer
  | 0 => .bc
  | 1 => .de
  | 2 => .hlUp
  | _ => .hlDown

/-- The condition that a field of two bits names. -/
def Condition.ofField : Nat → Condition
  | 0 => .notZero
  | 1 => .zero
  | 2 => .notCarry
  | _ => .carry

/-- The operation on the accumulator that a field of three bits names. -/
def AluOp.ofField : Nat → AluOp
  | 0 => .add
  | 1 => .adc
  | 2 => .sub
  | 3 => .sbc
  | 4 => .and
  | 5 => .xor
  | 6 => .or
  | _ => .cp

/-- The rotation that a field of two bits names. -/
def Rotation.ofField : Nat → Rotation
  | 0 => .rlc
  | 1 => .rrc
  | 2 => .rl
  | _ => .rr

/-- The shift that a field of three bits names. -/
def ShiftOp.ofField : Nat → ShiftOp
  | 4 => .sla
  | 5 => .sra
  | 6 => .swap
  | 7 => .srl
  | n => .rotate (Rotation.ofField n)

namespace Instruction

/-- A field of three bits. -/
def bitField (n : Nat) : Fin 8 := ⟨n % 8, Nat.mod_lt n (by decide)⟩

/-- An instruction of the second table. -/
def decodeExtended (opcode : Nat) : Instruction :=
  let operand := ByteOperand.ofField (opcode % 8)
  let row := opcode / 8 % 8
  match opcode / 64 with
  | 0 => shift (ShiftOp.ofField row) operand
  | 1 => testBit (bitField row) operand
  | 2 => resetBit (bitField row) operand
  | _ => setBit (bitField row) operand

/-- An instruction of the first quarter: loads of immediates, counting, sixteen-bit work. -/
def decodeFirstQuarter (row column : Nat) (second third : UInt8) : Instruction :=
  let word := Word.ofBytes third second
  let pair := row / 2
  match column, row with
  | 0, 0 => nop
  | 0, 1 => storeStackPointer word
  | 0, 2 => stop second
  | 0, 3 => jumpRelative none second
  | 0, n => jumpRelative (some (Condition.ofField (n - 4))) second
  | 1, n => if n % 2 = 0 then loadWord (WordOperand.ofField pair) word
      else addHL (WordOperand.ofField pair)
  | 2, n => if n % 2 = 0 then storeVia (Pointer.ofField pair) else loadVia (Pointer.ofField pair)
  | 3, n => if n % 2 = 0 then incWord (WordOperand.ofField pair)
      else decWord (WordOperand.ofField pair)
  | 4, n => inc (ByteOperand.ofField n)
  | 5, n => dec (ByteOperand.ofField n)
  | 6, n => loadByte (ByteOperand.ofField n) second
  | _, 4 => daa
  | _, 5 => cpl
  | _, 6 => scf
  | _, 7 => ccf
  | _, n => rotateA (Rotation.ofField n)

/-- An instruction of the last quarter: branches, the stack, immediate arithmetic.  The gaps are
the opcodes that mean nothing. -/
def decodeLastQuarter (row column : Nat) (second third : UInt8) : Option Instruction :=
  let word := Word.ofBytes third second
  let pair := row / 2
  match column, row with
  | 0, 4 => some (storeHigh second)
  | 0, 5 => some (addStackPointer second)
  | 0, 6 => some (loadHigh second)
  | 0, 7 => some (loadHLStackPointer second)
  | 0, n => some (ret (some (Condition.ofField n)))
  | 1, 1 => some (ret none)
  | 1, 3 => some reti
  | 1, 5 => some jumpHL
  | 1, 7 => some loadStackPointer
  | 1, _ => some (pop (StackOperand.ofField pair))
  | 2, 4 => some storeHighC
  | 2, 5 => some (storeAt word)
  | 2, 6 => some loadHighC
  | 2, 7 => some (loadAt word)
  | 2, n => some (jump (some (Condition.ofField n)) word)
  | 3, 0 => some (jump none word)
  | 3, 1 => some (decodeExtended second.toNat)
  | 3, 6 => some di
  | 3, 7 => some ei
  | 3, _ => none
  | 4, n => if n < 4 then some (call (some (Condition.ofField n)) word) else none
  | 5, 1 => some (call none word)
  | 5, n => if n % 2 = 0 then some (push (StackOperand.ofField pair)) else none
  | 6, n => some (aluByte (AluOp.ofField n) second)
  | _, n => some (restart (bitField n))

/-- The instruction that three bytes begin with, if the first means anything. -/
def decode (opcode second third : UInt8) : Option Instruction :=
  let row := opcode.toNat / 8 % 8
  let column := opcode.toNat % 8
  match opcode.toNat / 64 with
  | 0 => some (decodeFirstQuarter row column second third)
  | 1 =>
    if row = 6 ∧ column = 6 then some halt
    else some (load (ByteOperand.ofField row) (ByteOperand.ofField column))
  | 2 => some (alu (AluOp.ofField row) (ByteOperand.ofField column))
  | _ => decodeLastQuarter row column second third

/-- The byte that stands for the second table. -/
def extensionPrefix : UInt8 := 0xCB

/-- The instruction of an opcode in the first table, with its operands left blank. -/
def ofOpcode? (opcode : UInt8) : Option Instruction := decode opcode 0 0

/-- The opcodes that mean nothing. -/
def undefinedOpcodes : List UInt8 :=
  [0xD3, 0xDB, 0xDD, 0xE3, 0xE4, 0xEB, 0xEC, 0xED, 0xF4, 0xFC, 0xFD]

end Instruction
end Handheld
