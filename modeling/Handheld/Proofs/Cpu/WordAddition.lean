import Handheld.Proofs.Cpu.Binary

/-!
# Words are added like two bytes

The processor adds words in two ways: one word to another, and a signed byte to a word.  Each has a
computation of its flags to itself, made on the whole word, and this file puts both down to the
addition of bytes.

* A word added to another is the low bytes added, and then the high bytes with the carry between
  them (`Alu.addWord_eq`).  That carry is the half carry of the word; the one in the middle of
  either byte does not show.
* A signed byte moves a word up or down, but its flags are those of adding it, unsigned, to the low
  byte (`Alu.addSigned_eq`).  A negative byte is 256 too large there, so for a move downwards a
  carry says that the low byte did *not* have to borrow.

`Core.word_additions` compares what the instructions leave on a core with byte additions that are
carried out on the same core.
-/

set_option autoImplicit false

namespace Handheld

namespace Word

/-- A word moved by a signed byte, up to multiples of 65536. -/
theorem add_signExtend (w : UInt16) (b : UInt8) :
    w + signExtend b = UInt16.ofInt (w.toNat + signed b) := by
  have hword : UInt16.ofInt w.toNat = w := by
    have hlt : (w.toNat : ℤ) < 2 ^ 16 := by exact_mod_cast w.toNat_lt
    rw [UInt16.ofInt, Int.emod_eq_of_lt (Int.natCast_nonneg _) hlt, Int.toNat_natCast,
      UInt16.ofNat_toNat]
  have hbyte : ∀ b, UInt16.ofInt (signed b) = signExtend b := by decide +kernel
  rw [UInt16.ofInt_add, hword, hbyte]

end Word

namespace Alu

variable (flags : Flags)

/-- A word is added byte by byte, and the carry between the bytes is its half carry. -/
theorem addWord_eq (a v : UInt16) :
    let low := apply .add flags (Word.lo a) (Word.lo v)
    let high := apply .adc low.flags (Word.hi a) (Word.hi v)
    addWord flags a v =
      { value := Word.ofBytes high.value low.value
        flags := { z := flags.z, n := false, h := low.flags.c, c := high.flags.c } } := by
  intro low high
  have hlow := add_digit (Word.lo a) (Word.lo v) false
  have hhigh := add_digit (Word.hi a) (Word.hi v) low.flags.c
  have hlow_lt := low.value.toNat_lt
  have hhigh_lt := high.value.toNat_lt
  change low.value.toNat + 256 * low.flags.c.toNat = _ at hlow
  change high.value.toNat + 256 * high.flags.c.toNat = _ at hhigh
  rw [Word.toNat_lo, Word.toNat_lo, Bool.toNat_false] at hlow
  rw [Word.toNat_hi, Word.toNat_hi] at hhigh
  have hvalue : a + v = Word.ofBytes high.value low.value := by
    rw [← UInt16.toNat_inj, UInt16.toNat_add, Word.toNat_ofBytes]
    omega
  have hhalf : decide (a.toNat % 256 + v.toNat % 256 > 255) = low.flags.c := by
    rw [← Word.toNat_lo, ← Word.toNat_lo]
    rfl
  have hcarry : decide (a.toNat + v.toNat > 65535) = high.flags.c := by
    show _ = decide ((Word.hi a).toNat + (Word.hi v).toNat + low.flags.c.toNat > 255)
    rw [decide_eq_decide, Word.toNat_hi, Word.toNat_hi]
    omega
  rw [addWord, hvalue, hhalf, hcarry]

/-- A signed byte is added with the flags that it leaves, unsigned, on the low byte. -/
theorem addSigned_eq (base : UInt16) (offset : UInt8) :
    let low := apply .add flags (Word.lo base) offset
    addSigned base offset =
      { value := UInt16.ofInt (base.toNat + Word.signed offset)
        flags := { z := false, n := false, h := low.flags.h, c := low.flags.c } } := by
  intro low
  have hnibble : base.toNat % 16 = (Word.lo base).toNat % 16 := by
    rw [Word.toNat_lo]
    omega
  rw [addSigned, Word.add_signExtend, hnibble, ← Word.toNat_lo]
  rfl

end Alu

namespace Core

variable {β : Type} [Bus β]

/-- **Words are added like two bytes.**  `hl` and another word are added as a core that is in the
same state would add their low bytes and then, with the carry, their high bytes: the result and the
carry are those of the two additions, the half carry is the carry of the first, the zero flag is
kept and the subtraction flag cleared.

The stack pointer is moved by a signed byte up to multiples of 65536, with the carries of adding the
byte, unsigned, to its low byte, and the two other flags clear.  Nothing else changes. -/
theorem word_additions (s : Core β) (src : WordOperand) (offset : UInt8) :
    let hl := s.regs.hl
    let rr := s.regs.getWord src
    let sp := s.regs.sp
    let low := s.carryOut (binaryProgram .add none (Word.lo hl, Word.lo rr))
    let high := low.carryOut (binaryProgram .adc none (Word.hi hl, Word.hi rr))
    let moved := UInt16.ofInt (sp.toNat + Word.signed offset)
    let byte := s.carryOut (binaryProgram .add none (Word.lo sp, offset))
    let sumFlags : Flags :=
      { z := s.regs.flags.z, n := false, h := low.regs.flags.c, c := high.regs.flags.c }
    let movedFlags : Flags :=
      { z := false, n := false, h := byte.regs.flags.h, c := byte.regs.flags.c }
    (Instruction.addHL src).execute s = s.mapRegs (fun r ↦
        { r with flags := sumFlags }.setHL (Word.ofBytes high.regs.a low.regs.a)) ∧
      (Instruction.addStackPointer offset).execute s = s.mapRegs (fun r ↦
        { r with sp := moved, flags := movedFlags }) ∧
      (Instruction.loadHLStackPointer offset).execute s = s.mapRegs (fun r ↦
        { r with flags := movedFlags }.setHL moved) := by
  intro hl rr sp low high moved byte sumFlags movedFlags
  have hword := Alu.addWord_eq s.regs.flags hl rr
  have hsigned := Alu.addSigned_eq s.regs.flags sp offset
  refine ⟨?_, ?_, ?_⟩
  · change s.mapRegs (fun r ↦ { r with flags := (Alu.addWord s.regs.flags hl rr).flags }.setHL
      (Alu.addWord s.regs.flags hl rr).value) = _
    rw [hword]
    rfl
  · change s.mapRegs (fun r ↦
      { r with sp := (Alu.addSigned sp offset).value, flags := (Alu.addSigned sp offset).flags }) = _
    rw [hsigned]
    rfl
  · change s.mapRegs (fun r ↦ { r with flags := (Alu.addSigned sp offset).flags }.setHL
      (Alu.addSigned sp offset).value) = _
    rw [hsigned]
    rfl

end Core
end Handheld
