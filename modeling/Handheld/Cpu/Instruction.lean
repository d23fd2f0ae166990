import Handheld.Cpu.Alu

/-!
# Instructions

An `Instruction` is what a byte sequence means: the operation with its operands, immediate ones
included.  How it is encoded is the business of `Handheld.Cpu.Encoding`; how it prints that of
`Handheld.Cpu.Listing`; what it does that of `Handheld.Cpu.Execution`.  The table of instructions
is here: how many bytes an instruction takes, and how many clock cycles it costs.

Branches carry an optional condition, `none` for the unconditional form, so that the two forms of a
branch differ in nothing else.
-/

set_option autoImplicit false

namespace Handheld

/-- A byte operand: a register, or the byte that HL points to. -/
inductive ByteOperand where
  | b
  | c
  | d
  | e
  | h
  | l
  | atHL
  | a
  deriving DecidableEq

/-- A word operand. -/
inductive WordOperand where
  | bc
  | de
  | hl
  | sp
  deriving DecidableEq

/-- A word that can be put on the stack. -/
inductive StackOperand where
  | bc
  | de
  | hl
  | af
  deriving DecidableEq

/-- A register pair used as an address, HL optionally moving on by one afterwards. -/
inductive Pointer where
  | bc
  | de
  | hlUp
  | hlDown
  deriving DecidableEq

/-- What a conditional branch looks at. -/
inductive Condition where
  | notZero
  | zero
  | notCarry
  | carry
  deriving DecidableEq

namespace Condition

/-- Whether the condition is met. -/
def holds : Condition → Flags → Bool
  | notZero, f => !f.z
  | zero, f => f.z
  | notCarry, f => !f.c
  | carry, f => f.c

end Condition

/-- An instruction with its operands. -/
inductive Instruction where
  | nop
  /-- Sleeps until a key is pressed; the byte that follows has no meaning. -/
  | stop (padding : UInt8)
  /-- Sleeps until an interrupt is requested. -/
  | halt
  | di
  | ei
  | load (dst src : ByteOperand)
  | loadByte (dst : ByteOperand) (value : UInt8)
  | loadWord (dst : WordOperand) (value : UInt16)
  | storeStackPointer (address : UInt16)
  | loadStackPointer
  | storeVia (pointer : Pointer)
  | loadVia (pointer : Pointer)
  | storeHigh (offset : UInt8)
  | loadHigh (offset : UInt8)
  | storeHighC
  | loadHighC
  | storeAt (address : UInt16)
  | loadAt (address : UInt16)
  | push (src : StackOperand)
  | pop (dst : StackOperand)
  | inc (operand : ByteOperand)
  | dec (operand : ByteOperand)
  | incWord (operand : WordOperand)
  | decWord (operand : WordOperand)
  | addHL (src : WordOperand)
  /-- Adds a signed byte to the stack pointer. -/
  | addStackPointer (offset : UInt8)
  /-- Sets HL to the stack pointer plus a signed byte. -/
  | loadHLStackPointer (offset : UInt8)
  | alu (op : AluOp) (src : ByteOperand)
  | aluByte (op : AluOp) (value : UInt8)
  | rotateA (rotation : Rotation)
  | daa
  | cpl
  | scf
  | ccf
  | jumpRelative (condition : Option Condition) (offset : UInt8)
  | jump (condition : Option Condition) (address : UInt16)
  | jumpHL
  | call (condition : Option Condition) (address : UInt16)
  | ret (condition : Option Condition)
  /-- Returns and lets interrupts in again. -/
  | reti
  /-- Calls one of the eight addresses that are multiples of eight. -/
  | restart (slot : Fin 8)
  | shift (op : ShiftOp) (operand : ByteOperand)
  | testBit (bit : Fin 8) (operand : ByteOperand)
  | resetBit (bit : Fin 8) (operand : ByteOperand)
  | setBit (bit : Fin 8) (operand : ByteOperand)

namespace Instruction

/-- Whether the opcode is the second byte, after the byte that selects the bit instructions. -/
def isExtended : Instruction → Bool
  | shift .. | testBit .. | resetBit .. | setBit .. => true
  | _ => false

/-- The number of bytes the opcode takes. -/
def opcodeLength (i : Instruction) : Nat := if i.isExtended then 2 else 1

/-- The number of bytes an instruction takes.  Listings go by it; the processor does not look at
it. -/
def length : Instruction → Nat
  | loadWord .. | storeStackPointer _ | storeAt _ | loadAt _ | jump .. | call .. => 3
  | stop _ | loadByte .. | storeHigh _ | loadHigh _ | addStackPointer _ | loadHLStackPointer _
  | aluByte .. | jumpRelative .. | shift .. | testBit .. | resetBit .. | setBit .. => 2
  | _ => 1

/-- The condition of a branch. -/
def condition? : Instruction → Option Condition
  | jumpRelative c _ | jump c _ | call c _ | ret c => c
  | _ => none

/-- Whether a branch is taken under the given flags.  A branch without a condition always is. -/
def isTaken (i : Instruction) (flags : Flags) : Bool :=
  match i.condition? with
  | some c => c.holds flags
  | none => true

/-- The cost of an operation that is dearer when its operand is in memory. -/
def operandCost (operand : ByteOperand) (register memory : Nat) : Nat :=
  if operand = .atHL then memory else register

/-- The clock cycles an instruction takes; `taken` matters to conditional branches only. -/
def cycles (i : Instruction) (taken : Bool) : Nat :=
  match i with
  | nop | stop _ | halt | di | ei | rotateA _ | daa | cpl | scf | ccf | jumpHL => 4
  | load dst src => if dst = .atHL ∨ src = .atHL then 8 else 4
  | loadByte dst _ => operandCost dst 8 12
  | loadWord .. => 12
  | storeStackPointer _ => 20
  | loadStackPointer => 8
  | storeVia _ | loadVia _ => 8
  | storeHigh _ | loadHigh _ => 12
  | storeHighC | loadHighC => 8
  | storeAt _ | loadAt _ => 16
  | push _ => 16
  | pop _ => 12
  | inc operand | dec operand => operandCost operand 4 12
  | incWord _ | decWord _ | addHL _ => 8
  | addStackPointer _ => 16
  | loadHLStackPointer _ => 12
  | alu _ src => operandCost src 4 8
  | aluByte .. => 8
  | jumpRelative .. => if taken then 12 else 8
  | jump .. => if taken then 16 else 12
  | call .. => if taken then 24 else 12
  | ret none => 16
  | ret (some _) => if taken then 20 else 8
  | reti => 16
  | restart _ => 16
  | shift _ operand | resetBit _ operand | setBit _ operand => operandCost operand 8 16
  | testBit _ operand => operandCost operand 8 12

/-- **Every instruction takes a multiple of four cycles, from four to twenty-four.** -/
theorem cycles_range (i : Instruction) (taken : Bool) :
    i.cycles taken % 4 = 0 ∧ 4 ≤ i.cycles taken ∧ i.cycles taken ≤ 24 := by
  unfold cycles operandCost
  (repeat' split) <;> decide

theorem length_range (i : Instruction) : 1 ≤ i.length ∧ i.length ≤ 3 := by
  cases i <;> simp [length]

end Instruction
end Handheld
