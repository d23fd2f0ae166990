import Handheld.Cpu.Execution
import Mathlib.Algebra.Ring.Int.Units
import Mathlib.Data.Nat.Digits.Defs
import Mathlib.Tactic.LinearCombination

/-!
# Numbers of many bytes

The accumulator holds one byte.  A longer number is worked through byte by byte, the least
significant first, and the carry flag takes from each byte to the next what did not fit.
`Core.workThrough` is such a calculation: a short program for each byte, carried out on the
processor as the one before has left it.

How bytes are read as numbers is the matter of a `ByteDigits`: a base, the bytes that are digits,
and what each is worth.  If a program gets a single digit right, with the carry before and after it
(`Core.Calculates`), then it gets a number of any length right (`Core.Calculates.workThrough`), by
induction on the bytes: the carry that a digit leaves is worth a whole base to it and one to the
digit that comes next, so it cancels.  The result is the sum or the difference as far as the bytes
go, and the last carry says whether it has gone beyond (`Core.Calculates.result`).
-/

set_option autoImplicit false

namespace Handheld

/-! ## Bytes as digits -/

/-- A way of reading bytes as the digits of a number. -/
structure ByteDigits where
  base : Nat
  one_lt_base : 1 < base
  /-- The bytes that are digits. -/
  IsDigit : UInt8 → Prop
  value : UInt8 → Nat
  value_lt {b : UInt8} : IsDigit b → value b < base

namespace ByteDigits

/-- The number that some bytes make up, the least significant first. -/
def number (d : ByteDigits) (bytes : List UInt8) : Nat := Nat.ofDigits d.base (bytes.map d.value)

variable (d : ByteDigits)

theorem number_nil : d.number [] = 0 := Nat.ofDigits_nil

theorem number_cons (b : UInt8) (bytes : List UInt8) :
    d.number (b :: bytes) = d.value b + d.base * d.number bytes := Nat.ofDigits_cons

/-- A number of `n` digits is below the `n`-th power of the base. -/
theorem number_lt {bytes : List UInt8} (h : ∀ b ∈ bytes, d.IsDigit b) :
    d.number bytes < d.base ^ bytes.length := by
  have hvalues : ∀ v ∈ bytes.map d.value, v < d.base := by
    intro v hv
    obtain ⟨b, hb, rfl⟩ := List.mem_map.1 hv
    exact d.value_lt (h b hb)
  have hlt := Nat.ofDigits_lt_base_pow_length d.one_lt_base hvalues
  rwa [List.length_map] at hlt

end ByteDigits

namespace Core

variable {β : Type} [Bus β]

/-! ## Working through -/

/-- The core after some instructions, one after the other. -/
def carryOut (s : Core β) (program : List Instruction) : Core β :=
  program.foldl (fun s i ↦ i.execute s) s

/-- Carries out a program for each of some items, in order: what A holds after each, and the core
after the last. -/
def workThrough {α : Type} (program : α → List Instruction) (s : Core β) :
    List α → List UInt8 × Core β
  | [] => ([], s)
  | x :: xs =>
    let s := s.carryOut (program x)
    let rest := workThrough program s xs
    (s.regs.a :: rest.1, rest.2)

/-- The carry flag as a number. -/
def carry (s : Core β) : ℤ := s.regs.flags.c.toNat

omit [Bus β] in
theorem carry_eq (s : Core β) : s.carry = if s.regs.flags.c = true then 1 else 0 := by
  rw [carry]
  cases s.regs.flags.c <;> rfl

/-- The program adds two digits, or takes one from the other if the sign is negative: what it leaves
in A is a digit, and a carry stands for the base that is too much or too little. -/
structure Calculates (β : Type) [Bus β] (d : ByteDigits) (sign : ℤˣ)
    (program : UInt8 × UInt8 → List Instruction) : Prop where
  isDigit : ∀ (s : Core β) {x y : UInt8}, d.IsDigit x → d.IsDigit y →
    d.IsDigit (s.carryOut (program (x, y))).regs.a
  value_eq : ∀ (s : Core β) {x y : UInt8}, d.IsDigit x → d.IsDigit y →
    (d.value (s.carryOut (program (x, y))).regs.a : ℤ) =
      d.value x + sign * (d.value y + s.carry - d.base * (s.carryOut (program (x, y))).carry)

namespace Calculates

variable {d : ByteDigits} {sign : ℤˣ} {program : UInt8 × UInt8 → List Instruction}

/-- **What is right for one digit is right for a number.** -/
theorem workThrough (h : Calculates β d sign program) (s : Core β) {xs ys : List UInt8}
    (hlength : xs.length = ys.length) (hx : ∀ b ∈ xs, d.IsDigit b) (hy : ∀ b ∈ ys, d.IsDigit b) :
    let done := s.workThrough program (xs.zip ys)
    done.1.length = xs.length ∧ (∀ b ∈ done.1, d.IsDigit b) ∧
      (d.number done.1 : ℤ) =
        d.number xs + sign * (d.number ys + s.carry - d.base ^ xs.length * done.2.carry) := by
  induction xs generalizing s ys with
  | nil =>
    obtain rfl := List.length_eq_zero_iff.1 hlength.symm
    refine ⟨rfl, fun b hb ↦ absurd hb List.not_mem_nil, ?_⟩
    simp [Core.workThrough, ByteDigits.number_nil]
  | cons x xs ih =>
    obtain ⟨y, ys, rfl⟩ := List.exists_cons_of_length_eq_add_one hlength.symm
    obtain ⟨hx, hxs⟩ := List.forall_mem_cons.1 hx
    obtain ⟨hy, hys⟩ := List.forall_mem_cons.1 hy
    have hdigit := h.value_eq s hx hy
    obtain ⟨hcount, hdigits, hrest⟩ :=
      ih (s.carryOut (program (x, y))) (Nat.succ.inj hlength) hxs hys
    refine ⟨congrArg (· + 1) hcount, List.forall_mem_cons.2 ⟨h.isDigit s hx hy, hdigits⟩, ?_⟩
    rw [List.zip_cons_cons, Core.workThrough]
    dsimp only
    rw [d.number_cons, d.number_cons, d.number_cons, List.length_cons]
    push_cast
    -- the carry after the digit is in both equations, and goes out
    linear_combination hdigit + d.base * hrest

/-- **The result is right as far as the bytes go, and the carry says whether it goes beyond.** -/
theorem result (h : Calculates β d sign program) (s : Core β) {xs ys : List UInt8}
    (hlength : xs.length = ys.length) (hx : ∀ b ∈ xs, d.IsDigit b) (hy : ∀ b ∈ ys, d.IsDigit b) :
    let done := s.workThrough program (xs.zip ys)
    let full : ℤ := d.number xs + sign * (d.number ys + s.carry)
    (d.number done.1 : ℤ) = full % d.base ^ xs.length ∧
      (done.2.regs.flags.c = true ↔ ¬(0 ≤ full ∧ full < d.base ^ xs.length)) := by
  intro done full
  obtain ⟨hcount, hdigits, hnumber⟩ := h.workThrough s hlength hx hy
  have hlt := d.number_lt hdigits
  rw [hcount] at hlt
  have hlt : (d.number done.1 : ℤ) < d.base ^ xs.length := by exact_mod_cast hlt
  have hfull : full = d.number done.1 + d.base ^ xs.length * (sign * done.2.carry) := by
    linear_combination -hnumber
  constructor
  · rw [hfull, Int.add_mul_emod_self_left, Int.emod_eq_of_lt (Int.natCast_nonneg _) hlt]
  · have hnonneg := Int.natCast_nonneg (d.number done.1)
    rw [hfull, done.2.carry_eq]
    by_cases hcarry : done.2.regs.flags.c = true
    · rw [if_pos hcarry, mul_one, iff_true_left hcarry]
      -- a whole power too much, or too little
      rcases Int.units_eq_one_or sign with rfl | rfl
      · rw [Units.val_one]
        omega
      · rw [Units.val_neg, Units.val_one]
        omega
    · rw [if_neg hcarry, mul_zero, mul_zero, iff_false_left hcarry]
      omega

/-- The sum of two numbers and the carry before them. -/
theorem sum (h : Calculates β d 1 program) (s : Core β) {xs ys : List UInt8}
    (hlength : xs.length = ys.length) (hx : ∀ b ∈ xs, d.IsDigit b) (hy : ∀ b ∈ ys, d.IsDigit b) :
    let done := s.workThrough program (xs.zip ys)
    let full := d.number xs + d.number ys + s.regs.flags.c.toNat
    d.number done.1 = full % d.base ^ xs.length ∧
      (done.2.regs.flags.c = true ↔ d.base ^ xs.length ≤ full) := by
  intro done full
  obtain ⟨hnumber, hcarry⟩ := h.result s hlength hx hy
  have hfull : (d.number xs + (1 : ℤˣ) * (d.number ys + s.carry) : ℤ) = full := by
    rw [Units.val_one, one_mul, carry, ← add_assoc]
    rfl
  rw [hfull] at hnumber hcarry
  refine ⟨by exact_mod_cast hnumber, hcarry.trans ?_⟩
  rw [not_and, not_lt]
  exact_mod_cast imp_iff_right (Nat.zero_le full)

/-- The difference of two numbers, less the carry before them. -/
theorem difference (h : Calculates β d (-1) program) (s : Core β) {xs ys : List UInt8}
    (hlength : xs.length = ys.length) (hx : ∀ b ∈ xs, d.IsDigit b) (hy : ∀ b ∈ ys, d.IsDigit b) :
    let done := s.workThrough program (xs.zip ys)
    let full : ℤ := d.number xs - d.number ys - s.regs.flags.c.toNat
    (d.number done.1 : ℤ) = full % d.base ^ xs.length ∧
      (done.2.regs.flags.c = true ↔ d.number xs < d.number ys + s.regs.flags.c.toNat) := by
  intro done full
  obtain ⟨hnumber, hborrow⟩ := h.result s hlength hx hy
  have hfull : (d.number xs + (-1 : ℤˣ) * (d.number ys + s.carry) : ℤ) = full := by
    rw [Units.val_neg, Units.val_one, neg_one_mul, ← sub_eq_add_neg, ← sub_sub]
    rfl
  have hlt : (d.number xs : ℤ) < d.base ^ xs.length := by exact_mod_cast d.number_lt hx
  rw [hfull] at hnumber hborrow
  refine ⟨hnumber, hborrow.trans ?_⟩
  omega

end Calculates
end Core
end Handheld
