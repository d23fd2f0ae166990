import Handheld.Proofs.Bus.Registers
import Handheld.Proofs.Cpu.ByteByByte

/-!
# Decimal arithmetic

A packed decimal byte holds two digits, one in each half.  Such bytes are added and subtracted in
binary first, which goes wrong where a digit overflows, and `daa` puts it right.  It has the flags
and the byte to go by: after an addition a half that has overflowed shows in its carry or in a digit
above nine, after a subtraction in the carry alone.

So everything depends on one thing: `daa` corrects a half of the byte exactly when the decimal digit
in it has overflowed (`Alu.correctsLow_add`, `Alu.correctsHigh_add` and their like for
subtraction).  Then the byte is right, and the carry that `daa` leaves is that of the decimal digits
(`Alu.daa_add`, `Alu.daa_sub`), from which the next byte goes on.  Numbers of any length follow,
since what is right for one byte is right for many (`Core.decimal_arithmetic`).
-/

set_option autoImplicit false

namespace Handheld

/-- Bytes that hold a decimal digit in each half. -/
def packedDecimal : ByteDigits where
  base := 100
  one_lt_base := by decide
  IsDigit b := b.toNat / 16 < 10 ∧ b.toNat % 16 < 10
  value b := 10 * (b.toNat / 16) + b.toNat % 16
  value_lt h := by omega

instance : DecidablePred packedDecimal.IsDigit := fun _ ↦ inferInstanceAs (Decidable (_ ∧ _))

namespace Alu

/-! ## The correction -/

/-- The upper half of what an operation leaves is to be corrected. -/
def CorrectsHigh (x : ByteResult) : Prop :=
  x.flags.c = true ∨ x.flags.n = false ∧ 0x99 < x.value.toNat

/-- The lower half of what an operation leaves is to be corrected. -/
def CorrectsLow (x : ByteResult) : Prop :=
  x.flags.h = true ∨ x.flags.n = false ∧ 9 < x.value.toNat % 16

instance (x : ByteResult) : Decidable (CorrectsHigh x) := inferInstanceAs (Decidable (_ ∨ _))

instance (x : ByteResult) : Decidable (CorrectsLow x) := inferInstanceAs (Decidable (_ ∨ _))

/-- Each half is corrected by six. -/
theorem daaAdjustment_eq (x : ByteResult) :
    daaAdjustment x.flags x.value =
      (if CorrectsHigh x then 0x60 else 0) + (if CorrectsLow x then 0x06 else 0) := by
  have hdigit : x.value &&& 0x0F > 0x09 ↔ 9 < x.value.toNat % 16 := by
    generalize x.value = v
    revert v
    decide +kernel
  have hhigh : (x.flags.c || (!x.flags.n && decide (x.value > 0x99))) =
      decide (CorrectsHigh x) := by
    rw [Bool.eq_iff_iff, decide_eq_true_iff, CorrectsHigh]
    simp only [Bool.or_eq_true, Bool.and_eq_true, Bool.not_eq_true', decide_eq_true_eq]
    rfl
  have hlow : (x.flags.h || (!x.flags.n && decide (x.value &&& 0x0F > 0x09))) =
      decide (CorrectsLow x) := by
    rw [Bool.eq_iff_iff, decide_eq_true_iff, CorrectsLow, ← hdigit]
    simp only [Bool.or_eq_true, Bool.and_eq_true, Bool.not_eq_true', decide_eq_true_eq]
  rw [daaAdjustment, hhigh, hlow]
  by_cases CorrectsHigh x <;> by_cases CorrectsLow x <;> simp only [*] <;> rfl

/-- The carry is set when the upper half has been corrected. -/
theorem carry_daa (x : ByteResult) : (daa x.flags x.value).flags.c = decide (CorrectsHigh x) := by
  rw [daa, daaAdjustment_eq]
  by_cases CorrectsHigh x <;> by_cases CorrectsLow x <;> simp only [*] <;> rfl

theorem toNat_daa (x : ByteResult) :
    (daa x.flags x.value).value.toNat =
      let correction := (if CorrectsHigh x then 0x60 else 0) + (if CorrectsLow x then 0x06 else 0)
      (if x.flags.n then x.value.toNat + 256 - correction
        else x.value.toNat + correction) % 256 := by
  have hcorrection : (daaAdjustment x.flags x.value).toNat =
      (if CorrectsHigh x then 0x60 else 0) + (if CorrectsLow x then 0x06 else 0) := by
    rw [daaAdjustment_eq]
    split <;> split <;> rfl
  have hlt := (daaAdjustment x.flags x.value).toNat_lt
  rw [← hcorrection, daa]
  dsimp only
  split
  · rw [UInt8.toNat_sub]
    omega
  · rw [UInt8.toNat_add]

/-! ## When a digit overflows -/

section Digits

variable {x y : UInt8} (carry : Bool)

theorem toNat_add : (add x y carry).value.toNat = (x.toNat + y.toNat + carry.toNat) % 256 := by
  cases carry <;> simp [add, UInt8.toNat_add]

theorem toNat_sub :
    (sub x y carry).value.toNat = (x.toNat + 512 - (y.toNat + carry.toNat)) % 256 := by
  have hx := x.toNat_lt
  have hy := y.toNat_lt
  cases carry with
  | false =>
    simp only [sub, Bool.false_eq_true, if_false, UInt8.sub_zero, UInt8.toNat_sub,
      Bool.toNat_false]
    omega
  | true =>
    simp only [sub, if_true, UInt8.toNat_sub, UInt8.toNat_one, Bool.toNat_true]
    omega

theorem correctsLow_add (hx : packedDecimal.IsDigit x) (hy : packedDecimal.IsDigit y) :
    CorrectsLow (add x y carry) ↔ 10 ≤ x.toNat % 16 + y.toNat % 16 + carry.toNat := by
  have hcarry := carry.toNat_le
  rw [CorrectsLow, toNat_add]
  simp only [add, decide_eq_true_eq, true_and, packedDecimal] at *
  omega

theorem correctsHigh_add (hx : packedDecimal.IsDigit x) (hy : packedDecimal.IsDigit y) :
    CorrectsHigh (add x y carry) ↔
      100 ≤ packedDecimal.value x + packedDecimal.value y + carry.toNat := by
  have hcarry := carry.toNat_le
  rw [CorrectsHigh, toNat_add]
  simp only [add, decide_eq_true_eq, true_and, packedDecimal] at *
  omega

theorem correctsLow_sub :
    CorrectsLow (sub x y carry) ↔ x.toNat % 16 < y.toNat % 16 + carry.toNat := by
  rw [CorrectsLow]
  simp only [sub, decide_eq_true_eq, Bool.true_eq_false, false_and, or_false]

theorem correctsHigh_sub (hx : packedDecimal.IsDigit x) (hy : packedDecimal.IsDigit y) :
    CorrectsHigh (sub x y carry) ↔
      packedDecimal.value x < packedDecimal.value y + carry.toNat := by
  have hcarry := carry.toNat_le
  rw [CorrectsHigh]
  simp only [sub, decide_eq_true_eq, Bool.true_eq_false, false_and, or_false, packedDecimal] at *
  omega

/-- **Adding two decimal bytes.**  The carry that is left is worth a hundred. -/
theorem daa_add (hx : packedDecimal.IsDigit x) (hy : packedDecimal.IsDigit y) :
    let r := daa (add x y carry).flags (add x y carry).value
    packedDecimal.IsDigit r.value ∧
      packedDecimal.value r.value + 100 * r.flags.c.toNat =
        packedDecimal.value x + packedDecimal.value y + carry.toNat := by
  intro r
  have hcarry := carry.toNat_le
  have hhigh := correctsHigh_add carry hx hy
  have hlow := correctsLow_add carry hx hy
  have hvalue : r.value.toNat = _ := toNat_daa (add x y carry)
  have hn : (add x y carry).flags.n = false := rfl
  simp only [hn, toNat_add, Bool.false_eq_true, if_false] at hvalue
  rw [show r.flags.c = _ from carry_daa (add x y carry)]
  simp only [packedDecimal] at *
  -- in each case the byte is a number with two known digits
  by_cases high : CorrectsHigh (add x y carry) <;> by_cases low : CorrectsLow (add x y carry) <;>
    simp only [high, low, true_iff, false_iff, if_true, if_false, decide_true, decide_false,
      Bool.toNat_true, Bool.toNat_false] at hhigh hlow hvalue ⊢ <;>
    omega

/-- **Subtracting two decimal bytes.**  The carry that is left is a hundred borrowed. -/
theorem daa_sub (hx : packedDecimal.IsDigit x) (hy : packedDecimal.IsDigit y) :
    let r := daa (sub x y carry).flags (sub x y carry).value
    packedDecimal.IsDigit r.value ∧
      packedDecimal.value r.value + packedDecimal.value y + carry.toNat =
        packedDecimal.value x + 100 * r.flags.c.toNat := by
  intro r
  have hcarry := carry.toNat_le
  have hhigh := correctsHigh_sub carry hx hy
  have hlow := correctsLow_sub (x := x) (y := y) carry
  have hvalue : r.value.toNat = _ := toNat_daa (sub x y carry)
  have hn : (sub x y carry).flags.n = true := rfl
  simp only [hn, toNat_sub, if_true] at hvalue
  rw [show r.flags.c = _ from carry_daa (sub x y carry)]
  simp only [packedDecimal] at *
  by_cases high : CorrectsHigh (sub x y carry) <;> by_cases low : CorrectsLow (sub x y carry) <;>
    simp only [high, low, true_iff, false_iff, if_true, if_false, decide_true, decide_false,
      Bool.toNat_true, Bool.toNat_false] at hhigh hlow hvalue ⊢ <;>
    omega

end Digits

end Alu

/-! ## Numbers of any length -/

namespace Core

variable {β : Type} [Bus β]

/-- The program for one byte of two decimal numbers: the operation, and then the correction. -/
def decimalProgram (op : AluOp) (digits : UInt8 × UInt8) : List Instruction :=
  [.loadByte .a digits.1, .aluByte op digits.2, .daa]

theorem calculates_decimal_adc : Calculates β packedDecimal 1 (decimalProgram .adc) where
  isDigit s _ _ hx hy := (Alu.daa_add s.regs.flags.c hx hy).1
  value_eq s x y hx hy := by
    have hbase : packedDecimal.base = 100 := rfl
    have hsum : packedDecimal.value (s.carryOut (decimalProgram .adc (x, y))).regs.a +
        100 * (s.carryOut (decimalProgram .adc (x, y))).regs.flags.c.toNat =
          packedDecimal.value x + packedDecimal.value y + s.regs.flags.c.toNat :=
      (Alu.daa_add s.regs.flags.c hx hy).2
    rw [carry, carry, hbase, Units.val_one]
    omega

theorem calculates_decimal_sbc : Calculates β packedDecimal (-1) (decimalProgram .sbc) where
  isDigit s _ _ hx hy := (Alu.daa_sub s.regs.flags.c hx hy).1
  value_eq s x y hx hy := by
    have hbase : packedDecimal.base = 100 := rfl
    have hdifference : packedDecimal.value (s.carryOut (decimalProgram .sbc (x, y))).regs.a +
        packedDecimal.value y + s.regs.flags.c.toNat =
          packedDecimal.value x +
            100 * (s.carryOut (decimalProgram .sbc (x, y))).regs.flags.c.toNat :=
      (Alu.daa_sub s.regs.flags.c hx hy).2
    rw [carry, carry, hbase, Units.val_neg, Units.val_one]
    omega

/-- **Decimal numbers of any length are added and subtracted right.**  Two numbers of `n` packed
decimal bytes are worked through from the least significant byte on, with `adc` or `sbc` and then
`daa` for each, from any state of the flags.  What is left in A each time is a packed decimal byte;
together these bytes are the sum of the numbers and the carry before, or what is left of the first
when the second and the carry are taken from it, up to multiples of `100 ^ n`.  The last carry says
that the sum has come up to `100 ^ n`, or that there was not enough to take from. -/
theorem decimal_arithmetic (s : Core β) {xs ys : List UInt8} (hlength : xs.length = ys.length)
    (hx : ∀ b ∈ xs, packedDecimal.IsDigit b) (hy : ∀ b ∈ ys, packedDecimal.IsDigit b) :
    let x := packedDecimal.number xs
    let y := packedDecimal.number ys
    let c := s.regs.flags.c.toNat
    let sum := s.workThrough (decimalProgram .adc) (xs.zip ys)
    let difference := s.workThrough (decimalProgram .sbc) (xs.zip ys)
    (sum.1.length = xs.length ∧ (∀ b ∈ sum.1, packedDecimal.IsDigit b) ∧
        packedDecimal.number sum.1 = (x + y + c) % 100 ^ xs.length ∧
        (sum.2.regs.flags.c = true ↔ 100 ^ xs.length ≤ x + y + c)) ∧
      difference.1.length = xs.length ∧ (∀ b ∈ difference.1, packedDecimal.IsDigit b) ∧
        (packedDecimal.number difference.1 : ℤ) = (x - y - c) % 100 ^ xs.length ∧
        (difference.2.regs.flags.c = true ↔ x < y + c) := by
  obtain ⟨hcount, hdigits, -⟩ := calculates_decimal_adc.workThrough s hlength hx hy
  obtain ⟨hcount', hdigits', -⟩ := calculates_decimal_sbc.workThrough s hlength hx hy
  exact ⟨⟨hcount, hdigits, calculates_decimal_adc.sum s hlength hx hy⟩,
    hcount', hdigits', calculates_decimal_sbc.difference s hlength hx hy⟩

/-- With the carry set, 999999 and 0 make a million, and 0 less 999999 is a million short: in either
case three bytes of zero are left, and a carry. -/
theorem decimal_arithmetic_million :
    let s : Core Memory := ⟨{ regs := { flags := { c := true } } }, .zero⟩
    let nines : List UInt8 := [0x99, 0x99, 0x99]
    let zeros : List UInt8 := [0x00, 0x00, 0x00]
    let sum := s.workThrough (decimalProgram .adc) (nines.zip zeros)
    let difference := s.workThrough (decimalProgram .sbc) (zeros.zip nines)
    (∀ b ∈ nines, packedDecimal.IsDigit b) ∧ (∀ b ∈ zeros, packedDecimal.IsDigit b) ∧
      packedDecimal.number sum.1 = 0 ∧ sum.2.regs.flags.c = true ∧
      packedDecimal.number difference.1 = 0 ∧ difference.2.regs.flags.c = true := by
  intro s nines zeros sum difference
  have hnines : ∀ b ∈ nines, packedDecimal.IsDigit b := by decide +kernel
  have hzeros : ∀ b ∈ zeros, packedDecimal.IsDigit b := by decide +kernel
  have hn : packedDecimal.number nines = 999999 := by
    simp only [nines, ByteDigits.number_cons, ByteDigits.number_nil]
    rfl
  have hz : packedDecimal.number zeros = 0 := by
    simp only [zeros, ByteDigits.number_cons, ByteDigits.number_nil]
    rfl
  have hlength : nines.length = zeros.length := rfl
  obtain ⟨⟨-, -, hsum, hcarry⟩, -⟩ :=
    decimal_arithmetic s hlength hnines hzeros
  obtain ⟨-, -, -, hdifference, hborrow⟩ :=
    decimal_arithmetic s hlength.symm hzeros hnines
  rw [hn, hz] at hsum hcarry hdifference hborrow
  have hset : s.regs.flags.c.toNat = 1 := rfl
  rw [hset, show nines.length = 3 from rfl] at hsum hcarry
  rw [hset, show zeros.length = 3 from rfl] at hdifference
  rw [hset] at hborrow
  refine ⟨hnines, hzeros, hsum, hcarry.2 (by norm_num), ?_, hborrow.2 (by norm_num)⟩
  exact Int.natCast_eq_zero.1 (hdifference.trans (by norm_num))

end Core
end Handheld
