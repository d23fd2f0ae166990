import Handheld.Proofs.Cpu.Decimal

/-!
# Binary arithmetic on many bytes

Every byte is a digit of base 256, and `adc` and `sbc` work on one such digit: the byte they leave
and their carry, worth 256, are together the exact sum, or what the first byte lacks
(`Alu.add_digit`, `Alu.sub_digit`).  So a number of any length is worked through by one of the two
alone, with nothing to put right in between as there is for decimal numbers.

The other flags that are left are those of the top byte, and what they say of it depends on the
carry out of the bytes below.  `Core.binary_arithmetic` gives all four of them.
-/

set_option autoImplicit false

namespace Handheld

/-- All bytes, with the values that they have. -/
def binary : ByteDigits where
  base := 256
  one_lt_base := by decide
  IsDigit _ := True
  value := UInt8.toNat
  value_lt {b} _ := b.toNat_lt

@[simp] theorem binary_base : binary.base = 256 := rfl

@[simp] theorem binary_value (b : UInt8) : binary.value b = b.toNat := rfl

/-! ## One byte -/

namespace Alu

variable (x y : UInt8) (carry : Bool)

/-- A carry out of a sum is worth 256. -/
theorem add_digit : (add x y carry).value.toNat + 256 * (add x y carry).flags.c.toNat =
    x.toNat + y.toNat + carry.toNat := by
  have hx := x.toNat_lt
  have hy := y.toNat_lt
  have hcarry := carry.toNat_le
  have hflag : (add x y carry).flags.c.toNat =
      if 255 < x.toNat + y.toNat + carry.toNat then 1 else 0 := Bool.cond_decide _ _ _
  rw [toNat_add, hflag]
  split <;> omega

/-- A borrow is worth 256. -/
theorem sub_digit : (sub x y carry).value.toNat + y.toNat + carry.toNat =
    x.toNat + 256 * (sub x y carry).flags.c.toNat := by
  have hx := x.toNat_lt
  have hy := y.toNat_lt
  have hcarry := carry.toNat_le
  have hflag : (sub x y carry).flags.c.toNat =
      if x.toNat < y.toNat + carry.toNat then 1 else 0 := Bool.cond_decide _ _ _
  rw [toNat_sub, hflag]
  split <;> omega

end Alu

/-! ## Numbers of any length -/

namespace Core

variable {β : Type} [Bus β]

/-- The program for one byte of two numbers: the first goes into A, and the operation finds the
second in the instruction itself or in a register. -/
def binaryProgram (op : AluOp) (register : Option ByteOperand) (bytes : UInt8 × UInt8) :
    List Instruction :=
  match register with
  | none => [.loadByte .a bytes.1, .aluByte op bytes.2]
  | some r => [.loadByte .a bytes.1, .loadByte r bytes.2, .alu op r]

/-- A place for the second byte: not A, where the first one is, and not memory. -/
def IsSpare (r : ByteOperand) : Prop := r ≠ .a ∧ r ≠ .atHL

section Program

variable {register : Option ByteOperand} (hspare : ∀ r ∈ register, IsSpare r)
include hspare

/-- Wherever the second byte is found, the operation is the same. -/
theorem carryOut_binaryProgram (op : AluOp) (s : Core β) (x y : UInt8) :
    (s.carryOut (binaryProgram op register (x, y))).regs.a =
        (Alu.apply op s.regs.flags x y).value ∧
      (s.carryOut (binaryProgram op register (x, y))).regs.flags =
        (Alu.apply op s.regs.flags x y).flags := by
  cases register with
  | none => exact ⟨rfl, rfl⟩
  | some r =>
    obtain ⟨ha, hmemory⟩ := hspare r rfl
    cases r with
    | a => exact absurd rfl ha
    | atHL => exact absurd rfl hmemory
    | _ => exact ⟨rfl, rfl⟩

theorem calculates_adc : Calculates β binary 1 (binaryProgram .adc register) where
  isDigit _ _ _ _ _ := trivial
  value_eq s x y _ _ := by
    obtain ⟨ha, hflags⟩ := carryOut_binaryProgram hspare .adc s x y
    have hdigit := Alu.add_digit x y s.regs.flags.c
    rw [carry, carry, ha, hflags, Units.val_one]
    simp only [binary_base, binary_value, Alu.apply]
    omega

theorem calculates_sbc : Calculates β binary (-1) (binaryProgram .sbc register) where
  isDigit _ _ _ _ _ := trivial
  value_eq s x y _ _ := by
    obtain ⟨ha, hflags⟩ := carryOut_binaryProgram hspare .sbc s x y
    have hdigit := Alu.sub_digit x y s.regs.flags.c
    rw [carry, carry, ha, hflags, Units.val_neg, Units.val_one]
    simp only [binary_base, binary_value, Alu.apply]
    omega

end Program

/-- The last of some items is worked on as those before have left the core. -/
theorem workThrough_concat {α : Type} (program : α → List Instruction) (s : Core β) (items : List α)
    (last : α) :
    let before := s.workThrough program items
    let after := before.2.carryOut (program last)
    s.workThrough program (items ++ [last]) = (before.1 ++ [after.regs.a], after) := by
  induction items generalizing s with
  | nil => rfl
  | cons i items ih =>
    dsimp only at ih ⊢
    rw [List.cons_append, workThrough, ih]
    rfl

section TopByte

variable {register : Option ByteOperand} (hspare : ∀ r ∈ register, IsSpare r) (s : Core β)
  {xs ys : List UInt8} (hlength : xs.length = ys.length) (x y : UInt8)
include hspare hlength

/-- What is left of the top byte comes from the operation on it, with the flags that the bytes below
have left. -/
theorem workThrough_binaryProgram (op : AluOp) :
    let below := s.workThrough (binaryProgram op register) (xs.zip ys)
    let done := s.workThrough (binaryProgram op register) ((xs ++ [x]).zip (ys ++ [y]))
    let top := Alu.apply op below.2.regs.flags x y
    done.1.getLast? = some top.value ∧ done.2.regs.flags = top.flags := by
  intro below done top
  obtain ⟨ha, hflags⟩ := carryOut_binaryProgram hspare op below.2 x y
  have hdone : done = (below.1 ++ [(below.2.carryOut (binaryProgram op register (x, y))).regs.a],
      below.2.carryOut (binaryProgram op register (x, y))) := by
    rw [← workThrough_concat]
    exact congrArg (s.workThrough _) (List.zip_append hlength)
  rw [hdone]
  exact ⟨List.getLast?_concat.trans (congrArg some ha), hflags⟩

theorem flags_workThrough_adc :
    let below := s.workThrough (binaryProgram .adc register) (xs.zip ys)
    let done := s.workThrough (binaryProgram .adc register) ((xs ++ [x]).zip (ys ++ [y]))
    done.2.regs.flags =
      { z := decide (done.1.getLast? = some 0)
        n := false
        h := decide (15 < x.toNat % 16 + y.toNat % 16 + below.2.regs.flags.c.toNat)
        c := done.2.regs.flags.c } := by
  intro below done
  obtain ⟨hlast, hflags⟩ := workThrough_binaryProgram hspare s hlength x y .adc
  rw [hlast, hflags]
  simp only [Option.some.injEq]
  rfl

theorem flags_workThrough_sbc :
    let below := s.workThrough (binaryProgram .sbc register) (xs.zip ys)
    let done := s.workThrough (binaryProgram .sbc register) ((xs ++ [x]).zip (ys ++ [y]))
    done.2.regs.flags =
      { z := decide (done.1.getLast? = some 0)
        n := true
        h := decide (x.toNat % 16 < y.toNat % 16 + below.2.regs.flags.c.toNat)
        c := done.2.regs.flags.c } := by
  intro below done
  obtain ⟨hlast, hflags⟩ := workThrough_binaryProgram hspare s hlength x y .sbc
  rw [hlast, hflags]
  simp only [Option.some.injEq]
  rfl

end TopByte

/-- **Binary numbers of any length are added and subtracted right.**  Two numbers of `n` bytes are
worked through from the least significant byte on, with `adc` or with `sbc`, from any state of the
flags.  The bytes left in A are the sum of the numbers and the carry before, or what is left of the
first when the second and the carry are taken from it, up to multiples of `256 ^ n`, and the last
carry says that the sum has come up to `256 ^ n`, or that there was not enough to take from.

The top bytes are `x` and `y`.  The half carry is that of their lower halves and of the carry or
borrow out of all the bytes below them, and the zero flag speaks of the top byte of the result
alone. -/
theorem binary_arithmetic (s : Core β) {register : Option ByteOperand}
    (hspare : ∀ r ∈ register, IsSpare r) {xs ys : List UInt8} (hlength : xs.length = ys.length)
    (x y : UInt8) :
    let n := xs.length + 1
    let c := s.regs.flags.c.toNat
    let first := binary.number (xs ++ [x])
    let second := binary.number (ys ++ [y])
    let carryIn := decide (256 ^ xs.length ≤ binary.number xs + binary.number ys + c)
    let borrowIn := decide (binary.number xs < binary.number ys + c)
    let sum := s.workThrough (binaryProgram .adc register) ((xs ++ [x]).zip (ys ++ [y]))
    let difference := s.workThrough (binaryProgram .sbc register) ((xs ++ [x]).zip (ys ++ [y]))
    (sum.1.length = n ∧ binary.number sum.1 = (first + second + c) % 256 ^ n ∧
        sum.2.regs.flags =
          { z := decide (sum.1.getLast? = some 0)
            n := false
            h := decide (15 < x.toNat % 16 + y.toNat % 16 + carryIn.toNat)
            c := decide (256 ^ n ≤ first + second + c) }) ∧
      difference.1.length = n ∧
        (binary.number difference.1 : ℤ) = ((first : ℤ) - second - c) % 256 ^ n ∧
        difference.2.regs.flags =
          { z := decide (difference.1.getLast? = some 0)
            n := true
            h := decide (x.toNat % 16 < y.toNat % 16 + borrowIn.toNat)
            c := decide (first < second + c) } := by
  intro n c first second carryIn borrowIn sum difference
  have hall (bytes : List UInt8) : ∀ b ∈ bytes, binary.IsDigit b := fun _ _ ↦ trivial
  have hlength' : (xs ++ [x]).length = (ys ++ [y]).length := by simp [hlength]
  have hadc : Calculates β binary 1 (binaryProgram .adc register) := calculates_adc hspare
  have hsbc : Calculates β binary (-1) (binaryProgram .sbc register) := calculates_sbc hspare
  obtain ⟨hcount, -⟩ := hadc.workThrough s hlength' (hall _) (hall _)
  obtain ⟨hcount', -⟩ := hsbc.workThrough s hlength' (hall _) (hall _)
  obtain ⟨hsum, hcarry⟩ := hadc.sum s hlength' (hall _) (hall _)
  obtain ⟨hdifference, hborrow⟩ := hsbc.difference s hlength' (hall _) (hall _)
  obtain ⟨-, hcarryIn⟩ := hadc.sum s hlength (hall _) (hall _)
  obtain ⟨-, hborrowIn⟩ := hsbc.difference s hlength (hall _) (hall _)
  have hn : (xs ++ [x]).length = n := List.length_append
  rw [hn] at hcount hcount' hsum hcarry hdifference
  refine ⟨⟨hcount, hsum, ?_⟩, hcount', hdifference, ?_⟩
  · rw [flags_workThrough_adc hspare s hlength x y,
      Bool.eq_iff_iff.2 (hcarryIn.trans decide_eq_true_iff.symm),
      Bool.eq_iff_iff.2 (hcarry.trans decide_eq_true_iff.symm)]
    rfl
  · rw [flags_workThrough_sbc hspare s hlength x y,
      Bool.eq_iff_iff.2 (hborrowIn.trans decide_eq_true_iff.symm),
      Bool.eq_iff_iff.2 (hborrow.trans decide_eq_true_iff.symm)]

/-- 0FFF and F000 and a carry before them: in every byte it is the carry alone that makes the sum
overflow.  Zero is left, with all carries set. -/
theorem binary_arithmetic_allCarries :
    let s : Core Memory := ⟨{ regs := { flags := { c := true } } }, .zero⟩
    let sum := s.workThrough (binaryProgram .adc (some .b)) [(0xFF, 0x00), (0x0F, 0xF0)]
    let difference := s.workThrough (binaryProgram .sbc (some .b)) [(0xFF, 0x00), (0x0F, 0xF0)]
    (∀ r ∈ some ByteOperand.b, IsSpare r) ∧
      binary.number sum.1 = 0x0000 ∧
      sum.2.regs.flags = { z := true, n := false, h := true, c := true } ∧
      binary.number difference.1 = 0x1FFE ∧
      difference.2.regs.flags = { z := false, n := true, h := false, c := true } := by
  intro s sum difference
  have hspare : ∀ r ∈ some ByteOperand.b, IsSpare r := by simp [IsSpare]
  have hlength : ([0xFF] : List UInt8).length = ([0x00] : List UInt8).length := rfl
  have hlow : binary.number [0xFF] = 0xFF ∧ binary.number [0x00] = 0x00 := by
    simp [ByteDigits.number_cons, ByteDigits.number_nil]
  have hfirst : binary.number ([0xFF] ++ [0x0F]) = 0x0FFF := by
    simp [ByteDigits.number_cons, ByteDigits.number_nil]
  have hsecond : binary.number ([0x00] ++ [0xF0]) = 0xF000 := by
    simp [ByteDigits.number_cons, ByteDigits.number_nil]
  have hbytes : sum.1 = [0x00, 0x00] ∧ difference.1 = [0xFE, 0x1F] := by decide
  obtain ⟨⟨-, hsum, hflags⟩, -, hdifference, hflags'⟩ :=
    binary_arithmetic s hspare hlength 0x0F 0xF0
  have hset : s.regs.flags.c.toNat = 1 := rfl
  rw [hfirst, hsecond, hset] at hsum hflags hdifference hflags'
  rw [hlow.1, hlow.2] at hflags hflags'
  refine ⟨hspare, hsum, hflags.trans ?_, Int.natCast_inj.1 hdifference, hflags'.trans ?_⟩
  · show Flags.mk (decide (sum.1.getLast? = some 0)) _ _ _ = _
    rw [hbytes.1]
    rfl
  · show Flags.mk (decide (difference.1.getLast? = some 0)) _ _ _ = _
    rw [hbytes.2]
    rfl

end Core
end Handheld
