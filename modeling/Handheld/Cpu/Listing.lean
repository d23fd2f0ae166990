import Handheld.Bus
import Handheld.Cpu.Encoding

/-!
# Instructions as text

An instruction is printed in one of two styles.  The *template* style names the kind of each
operand (`LD A,d8`); it is used where the operands have not been looked at yet.  The *listing* style
writes the operands out (`LD A,$42`), a relative jump with the address it leads to and an offset to
the stack pointer with its sign.

A `Listing` line is one instruction in memory with its address and bytes.  Lines follow one another
without regard to the flow of control, so data in between is listed as if it were code.
-/

set_option autoImplicit false

namespace Handheld

def ByteOperand.name : ByteOperand → String
  | b => "B"
  | c => "C"
  | d => "D"
  | e => "E"
  | h => "H"
  | l => "L"
  | atHL => "(HL)"
  | a => "A"

def WordOperand.name : WordOperand → String
  | bc => "BC"
  | de => "DE"
  | hl => "HL"
  | sp => "SP"

def StackOperand.name : StackOperand → String
  | bc => "BC"
  | de => "DE"
  | hl => "HL"
  | af => "AF"

def Pointer.name : Pointer → String
  | bc => "(BC)"
  | de => "(DE)"
  | hlUp => "(HL+)"
  | hlDown => "(HL-)"

def Condition.name : Condition → String
  | notZero => "NZ"
  | zero => "Z"
  | notCarry => "NC"
  | carry => "C"

/-- The name of an operation, up to where its operand begins. -/
def AluOp.name : AluOp → String
  | add => "ADD A,"
  | adc => "ADC A,"
  | sub => "SUB "
  | sbc => "SBC A,"
  | and => "AND "
  | xor => "XOR "
  | or => "OR "
  | cp => "CP "

def Rotation.name : Rotation → String
  | rlc => "RLC"
  | rrc => "RRC"
  | rl => "RL"
  | rr => "RR"

def ShiftOp.name : ShiftOp → String
  | rotate rotation => rotation.name
  | sla => "SLA"
  | sra => "SRA"
  | swap => "SWAP"
  | srl => "SRL"

/-- How immediate operands are written. -/
structure OperandStyle where
  byte : UInt8 → String
  word : UInt16 → String
  /-- An address among the I/O registers, given by its low byte. -/
  high : UInt8 → String
  address : UInt16 → String
  /-- The displacement of a relative jump. -/
  relative : UInt8 → String
  /-- A signed amount that stands alone. -/
  offset : UInt8 → String
  /-- A signed amount added to the stack pointer. -/
  stackOffset : UInt8 → String

namespace OperandStyle

/-- Operands by their kind. -/
def template : OperandStyle where
  byte _ := "d8"
  word _ := "d16"
  high _ := "a8"
  address _ := "a16"
  relative _ := "r8"
  offset _ := "s8"
  stackOffset _ := "SP+s8"

/-- Operands written out.  Relative jumps count from `next`, the address after the instruction. -/
def listing (next : UInt16) : OperandStyle where
  byte v := "$" ++ Hex.byte v
  word v := "$" ++ Hex.word v
  high v := "$FF" ++ Hex.byte v
  address v := "$" ++ Hex.word v
  relative v := "$" ++ Hex.word (next + Word.signExtend v)
  offset v := toString (Word.signed v)
  stackOffset v := "SP" ++ (if Word.signed v < 0 then "" else "+") ++ toString (Word.signed v)

end OperandStyle

namespace Instruction

/-- The condition of a branch in front of its target. -/
def conditionPart : Option Condition → String
  | some c => c.name ++ ","
  | none => ""

/-- An instruction as text. -/
def render (style : OperandStyle) : Instruction → String
  | nop => "NOP"
  | stop _ => "STOP"
  | halt => "HALT"
  | di => "DI"
  | ei => "EI"
  | load dst src => "LD " ++ dst.name ++ "," ++ src.name
  | loadByte dst v => "LD " ++ dst.name ++ "," ++ style.byte v
  | loadWord dst v => "LD " ++ dst.name ++ "," ++ style.word v
  | storeStackPointer a => "LD (" ++ style.address a ++ "),SP"
  | loadStackPointer => "LD SP,HL"
  | storeVia p => "LD " ++ p.name ++ ",A"
  | loadVia p => "LD A," ++ p.name
  | storeHigh v => "LDH (" ++ style.high v ++ "),A"
  | loadHigh v => "LDH A,(" ++ style.high v ++ ")"
  | storeHighC => "LD (C),A"
  | loadHighC => "LD A,(C)"
  | storeAt a => "LD (" ++ style.address a ++ "),A"
  | loadAt a => "LD A,(" ++ style.address a ++ ")"
  | push src => "PUSH " ++ src.name
  | pop dst => "POP " ++ dst.name
  | inc operand => "INC " ++ operand.name
  | dec operand => "DEC " ++ operand.name
  | incWord operand => "INC " ++ operand.name
  | decWord operand => "DEC " ++ operand.name
  | addHL src => "ADD HL," ++ src.name
  | addStackPointer v => "ADD SP," ++ style.offset v
  | loadHLStackPointer v => "LD HL," ++ style.stackOffset v
  | alu op src => op.name ++ src.name
  | aluByte op v => op.name ++ style.byte v
  | rotateA rotation => rotation.name ++ "A"
  | daa => "DAA"
  | cpl => "CPL"
  | scf => "SCF"
  | ccf => "CCF"
  | jumpRelative c v => "JR " ++ conditionPart c ++ style.relative v
  | jump c a => "JP " ++ conditionPart c ++ style.address a
  | jumpHL => "JP (HL)"
  | call c a => "CALL " ++ conditionPart c ++ style.address a
  | ret none => "RET"
  | ret (some c) => "RET " ++ c.name
  | reti => "RETI"
  | restart slot => "RST " ++ Hex.byte (UInt8.ofNat (8 * slot.val)) ++ "H"
  | shift op operand => op.name ++ " " ++ operand.name
  | testBit n operand => "BIT " ++ toString n.val ++ "," ++ operand.name
  | resetBit n operand => "RES " ++ toString n.val ++ "," ++ operand.name
  | setBit n operand => "SET " ++ toString n.val ++ "," ++ operand.name

/-- The instruction at an address, if the byte there means anything. -/
@[inline] def fetch? {β : Type} [Bus β] (bus : β) (a : UInt16) : Option Instruction :=
  decode (Bus.read bus a) (Bus.read bus (a + 1)) (Bus.read bus (a + 2))

end Instruction

/-- One line of a listing. -/
structure ListingLine where
  address : UInt16
  bytes : List UInt8
  text : String

namespace ListingLine

/-- The number of bytes a line covers. -/
def length (line : ListingLine) : Nat := line.bytes.length

/-- The line for what stands at an address.  A byte that begins no instruction is a line of its
own. -/
def read {β : Type} [Bus β] (bus : β) (a : UInt16) : ListingLine :=
  match Instruction.fetch? bus a with
  | none =>
    { address := a, bytes := [Bus.read bus a], text := "DB $" ++ Hex.byte (Bus.read bus a) }
  | some i =>
    { address := a
      bytes := (List.range i.length).map fun k ↦ Bus.read bus (a + UInt16.ofNat k)
      text := i.render (OperandStyle.listing (a + UInt16.ofNat i.length)) }

/-- A line as it is printed: address, bytes, text. -/
def render (line : ListingLine) : String :=
  Hex.word line.address ++ "  " ++
    padRight 9 (String.intercalate " " (line.bytes.map Hex.byte)) ++ " " ++ line.text

/-- The lines of `count` instructions from an address on. -/
def readMany {β : Type} [Bus β] (bus : β) : Nat → UInt16 → List ListingLine
  | 0, _ => []
  | count + 1, a =>
    let line := read bus a
    line :: readMany bus count (a + UInt16.ofNat line.length)

end ListingLine
end Handheld
