import Handheld.Cpu.Registers

/-!
# Arithmetic and logic

Every operation is a function of its operands and of the flags, and answers the result together
with the flags it leaves.  Carries are computed on natural numbers: a half carry is a sum of lower
halves above 15, a borrow a minuend smaller than what is taken from it.  The operations on words
take their half carry from the sum of the low bytes.
-/

set_option autoImplicit false

namespace Handheld

/-- A byte and the flags that computing it leaves. -/
structure ByteResult where
  value : UInt8
  flags : Flags
  deriving DecidableEq

/-- A word and the flags that computing it leaves. -/
structure WordResult where
  value : UInt16
  flags : Flags
  deriving DecidableEq

/-- The four ways of rotating a byte: around itself, or through the carry flag. -/
inductive Rotation where
  | rlc
  | rrc
  | rl
  | rr
  deriving DecidableEq

/-- Everything that moves the bits of a byte. -/
inductive ShiftOp where
  | rotate (rotation : Rotation)
  | sla
  | sra
  | swap
  | srl
  deriving DecidableEq

/-- The eight operations on the accumulator. -/
inductive AluOp where
  | add
  | adc
  | sub
  | sbc
  | and
  | xor
  | or
  | cp
  deriving DecidableEq

namespace Alu

/-- Addition with a carry in. -/
def add (a v : UInt8) (carry : Bool) : ByteResult :=
  let result := a + v + (if carry then 1 else 0)
  { value := result
    flags :=
      { z := result == 0
        n := false
        h := decide (a.toNat % 16 + v.toNat % 16 + carry.toNat > 15)
        c := decide (a.toNat + v.toNat + carry.toNat > 255) } }

/-- Subtraction with a borrow in. -/
def sub (a v : UInt8) (borrow : Bool) : ByteResult :=
  let result := a - v - (if borrow then 1 else 0)
  { value := result
    flags :=
      { z := result == 0
        n := true
        h := decide (a.toNat % 16 < v.toNat % 16 + borrow.toNat)
        c := decide (a.toNat < v.toNat + borrow.toNat) } }

def and (a v : UInt8) : ByteResult :=
  { value := a &&& v, flags := { z := a &&& v == 0, n := false, h := true, c := false } }

def xor (a v : UInt8) : ByteResult :=
  { value := a ^^^ v, flags := { z := a ^^^ v == 0, n := false, h := false, c := false } }

def or (a v : UInt8) : ByteResult :=
  { value := a ||| v, flags := { z := a ||| v == 0, n := false, h := false, c := false } }

/-- An operation on the accumulator `a` and a byte.  Comparing leaves the accumulator as it is and
the flags of a subtraction. -/
def apply (op : AluOp) (flags : Flags) (a v : UInt8) : ByteResult :=
  match op with
  | .add => add a v false
  | .adc => add a v flags.c
  | .sub => sub a v false
  | .sbc => sub a v flags.c
  | .and => and a v
  | .xor => xor a v
  | .or => or a v
  | .cp => { sub a v false with value := a }

/-- Counting up by one; the carry is kept. -/
def inc (flags : Flags) (v : UInt8) : ByteResult :=
  { value := v + 1
    flags := { flags with z := v + 1 == 0, n := false, h := v &&& 0x0F == 0x0F } }

/-- Counting down by one; the carry is kept. -/
def dec (flags : Flags) (v : UInt8) : ByteResult :=
  { value := v - 1
    flags := { flags with z := v - 1 == 0, n := true, h := v &&& 0x0F == 0 } }

/-- What `daa` adds or takes away: 6 for each decimal digit that has overflowed.  After an addition
that also shows in the digit itself, after a subtraction in the flags only. -/
def daaAdjustment (flags : Flags) (a : UInt8) : UInt8 :=
  let high := flags.c || (!flags.n && decide (a > 0x99))
  let low := flags.h || (!flags.n && decide (a &&& 0x0F > 0x09))
  (if high then 0x60 else 0) ||| (if low then 0x06 else 0)

/-- Turns the binary result of adding or subtracting two packed decimal bytes into a packed decimal
byte again. -/
def daa (flags : Flags) (a : UInt8) : ByteResult :=
  let adjustment := daaAdjustment flags a
  let result := if flags.n then a - adjustment else a + adjustment
  { value := result
    flags := { flags with z := result == 0, h := false, c := decide (adjustment ≥ 0x60) } }

/-- Addition of words.  Zero is kept; the half carry is the carry out of the low byte. -/
def addWord (flags : Flags) (a v : UInt16) : WordResult :=
  { value := a + v
    flags :=
      { flags with
        n := false
        h := decide (a.toNat % 256 + v.toNat % 256 > 255)
        c := decide (a.toNat + v.toNat > 65535) } }

/-- Addition of a signed byte to a word.  Both carries are those of adding the byte, taken as
unsigned, to the low byte of the word. -/
def addSigned (base : UInt16) (offset : UInt8) : WordResult :=
  { value := base + Word.signExtend offset
    flags :=
      { z := false
        n := false
        h := decide (base.toNat % 16 + offset.toNat % 16 > 15)
        c := decide (base.toNat % 256 + offset.toNat > 255) } }

/-- The top bit of a byte. -/
def topBit (v : UInt8) : Bool := v &&& 0x80 != 0

/-- The lowest bit of a byte. -/
def lowBit (v : UInt8) : Bool := v &&& 0x01 != 0

/-- The bits of `v` after moving them, and the bit that leaves through the carry. -/
def moveBits (op : ShiftOp) (carry : Bool) (v : UInt8) : UInt8 × Bool :=
  match op with
  | .rotate .rlc => (v <<< 1 ||| v >>> 7, topBit v)
  | .rotate .rrc => (v >>> 1 ||| v <<< 7, lowBit v)
  | .rotate .rl => (v <<< 1 ||| (if carry then 0x01 else 0), topBit v)
  | .rotate .rr => (v >>> 1 ||| (if carry then 0x80 else 0), lowBit v)
  | .sla => (v <<< 1, topBit v)
  | .sra => (v >>> 1 ||| v &&& 0x80, lowBit v)
  | .swap => (v <<< 4 ||| v >>> 4, false)
  | .srl => (v >>> 1, lowBit v)

/-- A rotation, shift or exchange of halves, with its flags. -/
def shift (op : ShiftOp) (flags : Flags) (v : UInt8) : ByteResult :=
  let moved := moveBits op flags.c v
  { value := moved.1, flags := { z := moved.1 == 0, n := false, h := false, c := moved.2 } }

end Alu
end Handheld
