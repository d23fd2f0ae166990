import Handheld.Text.Hex
import Handheld.Word

/-!
# Flags and registers

Seven byte registers, four flags, the stack pointer and the program counter.  The flags also make
up the byte register F, whose upper four bits they are and whose lower four bits are zero: F is
computed from `Flags`, so no instruction can put anything into its lower half.

The byte registers pair up, high byte first, into the words AF, BC, DE and HL.
-/

set_option autoImplicit false

namespace Handheld

/-- The four condition flags. -/
structure Flags where
  /-- The last result was zero. -/
  z : Bool := false
  /-- The last operation was a subtraction. -/
  n : Bool := false
  /-- There was a carry out of the lower half of the operands. -/
  h : Bool := false
  /-- There was a carry out of the operands. -/
  c : Bool := false
  deriving DecidableEq

namespace Flags

/-- The byte F: zero, subtract, half carry, carry from bit 7 down to bit 4, then four zeros. -/
def toByte (f : Flags) : UInt8 :=
  (if f.z then 0x80 else 0) ||| (if f.n then 0x40 else 0) |||
    (if f.h then 0x20 else 0) ||| (if f.c then 0x10 else 0)

/-- The flags in the upper half of a byte; the lower half is dropped. -/
def ofByte (b : UInt8) : Flags where
  z := b &&& 0x80 != 0
  n := b &&& 0x40 != 0
  h := b &&& 0x20 != 0
  c := b &&& 0x10 != 0

@[simp] theorem ofByte_toByte (f : Flags) : ofByte f.toByte = f := by
  obtain ⟨z, n, h, c⟩ := f
  revert z n h c
  decide

/-- The lower half of F is zero. -/
theorem toByte_and_low (f : Flags) : f.toByte &&& 0x0F = 0 := by
  obtain ⟨z, n, h, c⟩ := f
  revert z n h c
  decide

end Flags

/-- The register file. -/
structure Registers where
  a : UInt8 := 0
  flags : Flags := {}
  b : UInt8 := 0
  c : UInt8 := 0
  d : UInt8 := 0
  e : UInt8 := 0
  h : UInt8 := 0
  l : UInt8 := 0
  /-- The stack pointer. -/
  sp : UInt16 := 0
  /-- The program counter. -/
  pc : UInt16 := 0
  deriving DecidableEq

namespace Registers

/-- The flags as a byte. -/
def f (r : Registers) : UInt8 := r.flags.toByte

def af (r : Registers) : UInt16 := Word.ofBytes r.a r.f
def bc (r : Registers) : UInt16 := Word.ofBytes r.b r.c
def de (r : Registers) : UInt16 := Word.ofBytes r.d r.e
def hl (r : Registers) : UInt16 := Word.ofBytes r.h r.l

/-- Sets A and the flags; the lower half of the low byte is dropped. -/
def setAF (r : Registers) (w : UInt16) : Registers :=
  { r with a := Word.hi w, flags := Flags.ofByte (Word.lo w) }

def setBC (r : Registers) (w : UInt16) : Registers := { r with b := Word.hi w, c := Word.lo w }
def setDE (r : Registers) (w : UInt16) : Registers := { r with d := Word.hi w, e := Word.lo w }
def setHL (r : Registers) (w : UInt16) : Registers := { r with h := Word.hi w, l := Word.lo w }

@[simp] theorem bc_setBC (r : Registers) (w : UInt16) : (r.setBC w).bc = w := Word.ofBytes_hi_lo w
@[simp] theorem de_setDE (r : Registers) (w : UInt16) : (r.setDE w).de = w := Word.ofBytes_hi_lo w
@[simp] theorem hl_setHL (r : Registers) (w : UInt16) : (r.setHL w).hl = w := Word.ofBytes_hi_lo w

/-- What the boot program leaves in the registers when it hands over to the cartridge. -/
def postBoot : Registers where
  a := 0x01
  flags := Flags.ofByte 0xB0
  b := 0x00
  c := 0x13
  d := 0x00
  e := 0xD8
  h := 0x01
  l := 0x4D
  sp := 0xFFFE
  pc := 0x0100

/-- The six words of the register file, as `AF=01B0 BC=0013 …`. -/
def render (r : Registers) : String :=
  s!"AF={Hex.word r.af} BC={Hex.word r.bc} DE={Hex.word r.de} HL={Hex.word r.hl} " ++
    s!"SP={Hex.word r.sp} PC={Hex.word r.pc}"

end Registers
end Handheld
