import Handheld.Proofs.Bus.Ram
import Handheld.Proofs.Cpu.Binary

/-!
# Shifts of many bytes

A number of many bytes is shifted by one place byte by byte, each time with the bit that the byte
before has given out coming in at the other end.  `rl` and `rr` do that, and the carry flag takes
the bit across.  A pass of either is therefore one equation between the numbers before and after and
the two carries (`Alu.number_rotateLeft`, `Alu.number_rotateRight`): twice the number, with the old
carry below it, is the new number with the new carry above it; and the other way round.

The three shifts differ from the rotations in nothing but the bit that comes in first
(`Alu.moveBits_sla`, `Alu.moveBits_srl`, `Alu.moveBits_sra`).  So a pass that begins with one of
them has the same equation with that bit in place of the carry, and doubling and halving are read
off it (`Core.shift_numbers`).
-/

set_option autoImplicit false

namespace Handheld

/-- The number that some bytes make up in two's complement, the least significant first. -/
def twosComplement (bytes : List UInt8) : ℤ := (binary.number bytes : ℤ).bmod (256 ^ bytes.length)

/-! ## Bits that go from byte to byte -/

namespace ByteDigits

variable (d : ByteDigits)

theorem number_concat (bytes : List UInt8) (top : UInt8) :
    d.number (bytes ++ [top]) = d.number bytes + d.base ^ bytes.length * d.value top := by
  rw [number, List.map_append, List.map_singleton, Nat.ofDigits_append, Nat.ofDigits_singleton,
    List.length_map, number]

end ByteDigits

theorem binary_number_lt (bytes : List UInt8) : binary.number bytes < 256 ^ bytes.length :=
  binary.number_lt fun _ _ ↦ trivial

/-- As many bytes have the same number only if they are the same. -/
theorem binary_number_inj {xs ys : List UInt8} (hlength : xs.length = ys.length)
    (h : binary.number xs = binary.number ys) : xs = ys := by
  have hbytes (bytes : List UInt8) : ∀ v ∈ bytes.map UInt8.toNat, v < 256 := by
    intro v hv
    obtain ⟨b, -, rfl⟩ := List.mem_map.1 hv
    exact b.toNat_lt
  have hvalues : xs.map UInt8.toNat = ys.map UInt8.toNat :=
    Nat.ofDigits_inj_of_len_eq (by decide) (by simp [hlength]) (hbytes xs) (hbytes ys) h
  exact (List.map_inj_right fun _ _ ↦ UInt8.toNat_inj.1).1 hvalues

namespace Alu

/-! ### One byte -/

theorem moveBits_rl (carry : Bool) (v : UInt8) :
    (moveBits (.rotate .rl) carry v).1.toNat + 256 * (moveBits (.rotate .rl) carry v).2.toNat =
      2 * v.toNat + carry.toNat := by
  revert carry v
  decide +kernel

theorem moveBits_rr (carry : Bool) (v : UInt8) :
    2 * (moveBits (.rotate .rr) carry v).1.toNat + (moveBits (.rotate .rr) carry v).2.toNat =
      v.toNat + 256 * carry.toNat := by
  revert carry v
  decide +kernel

/-- A shift to the left lets a zero in. -/
theorem moveBits_sla (carry : Bool) (v : UInt8) :
    moveBits .sla carry v = moveBits (.rotate .rl) false v := by
  simp [moveBits]

/-- A logical shift to the right lets a zero in. -/
theorem moveBits_srl (carry : Bool) (v : UInt8) :
    moveBits .srl carry v = moveBits (.rotate .rr) false v := by
  simp [moveBits]

/-- An arithmetic shift to the right lets the top bit in again. -/
theorem moveBits_sra (carry : Bool) (v : UInt8) :
    moveBits .sra carry v = moveBits (.rotate .rr) (topBit v) v := by
  revert carry v
  decide +kernel

/-! ### A pass over many bytes -/

/-- Moves the bits of one byte after the other, the bit that leaves through the carry coming to the
next: the bytes after it, and the last carry. -/
def moveThrough (carry : Bool) : List (ShiftOp × UInt8) → List UInt8 × Bool
  | [] => ([], carry)
  | (op, v) :: items =>
    let moved := moveBits op carry v
    let rest := moveThrough moved.2 items
    (moved.1 :: rest.1, rest.2)

/-- A pass over some bytes: one operation on the first of them, and a rotation on each of the
others. -/
def pass (first : ShiftOp) (rotation : Rotation) : List UInt8 → List (ShiftOp × UInt8)
  | [] => []
  | v :: bytes => (first, v) :: bytes.map fun b ↦ (.rotate rotation, b)

theorem pass_rotate (rotation : Rotation) (bytes : List UInt8) :
    pass (.rotate rotation) rotation bytes = bytes.map fun b ↦ (.rotate rotation, b) := by
  cases bytes <;> rfl

theorem length_moveThrough (carry : Bool) (items : List (ShiftOp × UInt8)) :
    (moveThrough carry items).1.length = items.length := by
  induction items generalizing carry with
  | nil => rfl
  | cons item items ih => exact congrArg (· + 1) (ih _)

theorem length_moveThrough_pass (carry : Bool) (first : ShiftOp) (rotation : Rotation)
    (bytes : List UInt8) :
    (moveThrough carry (pass first rotation bytes)).1.length = bytes.length := by
  rw [length_moveThrough]
  cases bytes <;> simp [pass]

/-- A pass that begins with a shift is a pass of rotations, with another bit coming in. -/
theorem moveThrough_pass {first : ShiftOp} {rotation : Rotation} {carry bit : Bool} {v : UInt8}
    (h : moveBits first carry v = moveBits (.rotate rotation) bit v) (bytes : List UInt8) :
    moveThrough carry (pass first rotation (v :: bytes)) =
      moveThrough bit ((v :: bytes).map fun b ↦ (.rotate rotation, b)) := by
  rw [pass, List.map_cons, moveThrough, moveThrough, h]

/-- **From the lowest byte to the top.** -/
theorem number_rotateLeft (carry : Bool) (bytes : List UInt8) :
    let moved := moveThrough carry (bytes.map fun b ↦ (.rotate .rl, b))
    binary.number moved.1 + 256 ^ bytes.length * moved.2.toNat =
      2 * binary.number bytes + carry.toNat := by
  induction bytes generalizing carry with
  | nil => simp [moveThrough, ByteDigits.number_nil]
  | cons v bytes ih =>
    have hbyte := moveBits_rl carry v
    have hrest := ih (moveBits (.rotate .rl) carry v).2
    dsimp only at hrest ⊢
    rw [List.map_cons, moveThrough]
    dsimp only
    rw [binary.number_cons, binary.number_cons, List.length_cons, pow_succ]
    simp only [binary_base, binary_value]
    linear_combination hbyte + 256 * hrest

/-- **From the top byte to the lowest.**  The bytes come in this order, so it is their reverse that
makes up the number. -/
theorem number_rotateRight (carry : Bool) (bytes : List UInt8) :
    let moved := moveThrough carry (bytes.map fun b ↦ (.rotate .rr, b))
    2 * binary.number moved.1.reverse + moved.2.toNat =
      binary.number bytes.reverse + 256 ^ bytes.length * carry.toNat := by
  induction bytes generalizing carry with
  | nil => simp [moveThrough, ByteDigits.number_nil]
  | cons v bytes ih =>
    have hbyte := moveBits_rr carry v
    have hrest := ih (moveBits (.rotate .rr) carry v).2
    have hlength := length_moveThrough (moveBits (.rotate .rr) carry v).2
      (bytes.map fun b ↦ (.rotate .rr, b))
    rw [List.length_map] at hlength
    dsimp only at hrest ⊢
    rw [List.map_cons, moveThrough]
    dsimp only
    rw [List.reverse_cons, List.reverse_cons, binary.number_concat, binary.number_concat,
      List.length_reverse, List.length_reverse, hlength, List.length_cons, pow_succ]
    simp only [binary_base, binary_value]
    linear_combination hrest + 256 ^ bytes.length * hbyte

/-! ### Doubling and halving -/

/-- A pass to the right that begins with a shift. -/
theorem number_shiftRight (carry : Bool) {first : ShiftOp} {bit : Bool} {top : UInt8}
    (low : List UInt8) (h : moveBits first carry top = moveBits (.rotate .rr) bit top) :
    let moved := moveThrough carry (pass first .rr (low ++ [top]).reverse)
    2 * binary.number moved.1.reverse + moved.2.toNat =
      binary.number (low ++ [top]) + 256 ^ (low ++ [top]).length * bit.toNat := by
  have hnumber := number_rotateRight bit (low ++ [top]).reverse
  rw [List.reverse_reverse, List.length_reverse, List.reverse_concat] at hnumber
  rw [List.reverse_concat, moveThrough_pass h]
  exact hnumber

theorem exists_concat {bytes : List UInt8} (h : bytes ≠ []) :
    ∃ low top, bytes = low ++ [top] := ⟨_, _, (List.dropLast_concat_getLast h).symm⟩

section Numbers

variable {bytes : List UInt8}

/-- The bit at the top of a number of `n` bytes is that of its top byte. -/
theorem topBit_eq (bytes : List UInt8) (top : UInt8) :
    topBit top =
      decide (256 ^ (bytes ++ [top]).length ≤ 2 * binary.number (bytes ++ [top])) := by
  have hbyte : topBit top = decide (128 ≤ top.toNat) := by
    revert top
    decide +kernel
  have hlt := binary_number_lt bytes
  have hnumber : binary.number (bytes ++ [top]) =
      binary.number bytes + 256 ^ bytes.length * top.toNat := binary.number_concat bytes top
  rw [hbyte, hnumber, decide_eq_decide, List.length_append, List.length_singleton, pow_succ]
  constructor
  · intro h
    have := Nat.mul_le_mul_left (256 ^ bytes.length) h
    omega
  · intro h
    by_contra hno
    have := Nat.mul_le_mul_left (256 ^ bytes.length) (show top.toNat ≤ 127 by omega)
    omega

theorem pow_length (hbytes : bytes ≠ []) :
    256 ^ bytes.length = 2 * 2 ^ (8 * bytes.length - 1) := by
  have hpos := List.length_pos_iff.2 hbytes
  rw [← pow_succ', Nat.sub_add_cancel (by omega), pow_mul]
  rfl

theorem testBit_top (hbytes : bytes ≠ []) :
    (binary.number bytes).testBit (8 * bytes.length - 1) =
      decide (256 ^ bytes.length ≤ 2 * binary.number bytes) := by
  have hlt := binary_number_lt bytes
  rw [pow_length hbytes] at hlt ⊢
  rw [Nat.testBit_eq_decide_div_mod_eq, decide_eq_decide]
  by_cases h : 2 ^ (8 * bytes.length - 1) ≤ binary.number bytes
  · rw [Nat.div_eq_of_lt_le (k := 1) (by omega) (by omega)]
    omega
  · rw [Nat.div_eq_of_lt (by omega)]
    omega

/-- In two's complement the top bit counts down. -/
theorem twosComplement_eq (hbytes : bytes ≠ []) :
    twosComplement bytes = binary.number bytes - (256 ^ bytes.length : Nat) *
      (decide (256 ^ bytes.length ≤ 2 * binary.number bytes)).toNat := by
  have hlt := binary_number_lt bytes
  have hmod : (binary.number bytes : ℤ) % (256 ^ bytes.length : Nat) = binary.number bytes :=
    Int.emod_eq_of_lt (Int.natCast_nonneg _) (by exact_mod_cast hlt)
  rw [twosComplement, Int.bmod_def, hmod, pow_length hbytes]
  by_cases h : 2 * 2 ^ (8 * bytes.length - 1) ≤ 2 * binary.number bytes
  · rw [if_neg (by omega), decide_eq_true h, Bool.toNat_true, Nat.cast_one, mul_one]
  · rw [if_pos (by omega), decide_eq_false h, Bool.toNat_false, Nat.cast_zero, mul_zero, sub_zero]

/-! ### Passes that begin with a shift -/

variable (carry : Bool) (hbytes : bytes ≠ [])
include hbytes

/-- **A shift to the left doubles.** -/
theorem moveThrough_sla :
    let moved := moveThrough carry (pass .sla .rl bytes)
    moved.1.length = bytes.length ∧
      binary.number moved.1 = 2 * binary.number bytes % 256 ^ bytes.length ∧
      moved.2 = (binary.number bytes).testBit (8 * bytes.length - 1) := by
  intro moved
  obtain ⟨v, rest, rfl⟩ := List.exists_cons_of_ne_nil hbytes
  have hnumber := number_rotateLeft false (v :: rest)
  rw [← moveThrough_pass (moveBits_sla carry v)] at hnumber
  have hlength := length_moveThrough_pass carry .sla .rl (v :: rest)
  have hlt := hlength ▸ binary_number_lt moved.1
  change binary.number moved.1 + 256 ^ (v :: rest).length * moved.2.toNat = _ at hnumber
  rw [Bool.toNat_false, add_zero] at hnumber
  rw [testBit_top hbytes, ← hnumber, Nat.add_mul_mod_self_left, Nat.mod_eq_of_lt hlt]
  refine ⟨hlength, rfl, ?_⟩
  cases hcarry : moved.2 with
  | false => simpa using hlt
  | true => simp

omit carry in
/-- Whatever comes in at the top, the bit that leaves to the right is the lowest. -/
theorem testBit_low {new : Nat} {out bit : Bool}
    (h : 2 * new + out.toNat = binary.number bytes + 256 ^ bytes.length * bit.toNat) :
    out = (binary.number bytes).testBit 0 := by
  rw [pow_length hbytes] at h
  rw [Nat.testBit_zero, Bool.eq_iff_iff, decide_eq_true_iff]
  cases out <;> cases bit <;>
    simp only [Bool.toNat_false, Bool.toNat_true, Bool.false_eq_true, false_iff, true_iff]
      at h ⊢ <;>
    omega

/-- **A logical shift to the right halves.** -/
theorem moveThrough_srl :
    let moved := moveThrough carry (pass .srl .rr bytes.reverse)
    moved.1.length = bytes.length ∧ binary.number moved.1.reverse = binary.number bytes / 2 ∧
      moved.2 = (binary.number bytes).testBit 0 := by
  intro moved
  obtain ⟨low, top, rfl⟩ := exists_concat hbytes
  have hnumber : 2 * binary.number moved.1.reverse + moved.2.toNat = _ :=
    number_shiftRight carry low (moveBits_srl carry top)
  have hlength := length_moveThrough_pass carry .srl .rr (low ++ [top]).reverse
  have hout := moved.2.toNat_le
  refine ⟨hlength.trans List.length_reverse, ?_, testBit_low hbytes hnumber⟩
  rw [Bool.toNat_false, mul_zero, add_zero] at hnumber
  omega

/-- **An arithmetic shift to the right halves a number in two's complement.** -/
theorem moveThrough_sra :
    let moved := moveThrough carry (pass .sra .rr bytes.reverse)
    moved.1.length = bytes.length ∧ twosComplement moved.1.reverse = twosComplement bytes / 2 ∧
      moved.2 = (binary.number bytes).testBit 0 := by
  intro moved
  obtain ⟨low, top, rfl⟩ := exists_concat hbytes
  have hnumber : 2 * binary.number moved.1.reverse + moved.2.toNat = _ :=
    number_shiftRight carry low (moveBits_sra carry top)
  have hlength : moved.1.length = (low ++ [top]).length :=
    (length_moveThrough_pass _ _ _ _).trans List.length_reverse
  have hne : moved.1.reverse ≠ [] := by
    rw [← List.length_pos_iff, List.length_reverse, hlength]
    exact List.length_pos_iff.2 hbytes
  have hout := moved.2.toNat_le
  have hlt := binary_number_lt (low ++ [top])
  refine ⟨hlength, ?_, testBit_low hbytes hnumber⟩
  rw [topBit_eq low top] at hnumber
  rw [twosComplement_eq hne, twosComplement_eq hbytes, List.length_reverse, hlength]
  -- the top bit is as it was before
  by_cases h : 256 ^ (low ++ [top]).length ≤ 2 * binary.number (low ++ [top])
  · rw [decide_eq_true h, Bool.toNat_true, mul_one] at hnumber
    rw [decide_eq_true h, decide_eq_true (by omega), Bool.toNat_true, Nat.cast_one, mul_one]
    omega
  · rw [decide_eq_false h, Bool.toNat_false, mul_zero, add_zero] at hnumber
    rw [decide_eq_false h, decide_eq_false (by omega), Bool.toNat_false, Nat.cast_zero, mul_zero,
      sub_zero, sub_zero]
    omega

end Numbers

/-- **What has been rotated to the left comes back when it is rotated to the right.** -/
theorem moveThrough_back (carry : Bool) (bytes : List UInt8) :
    let turned := moveThrough carry (pass (.rotate .rl) .rl bytes)
    let back := moveThrough turned.2 (pass (.rotate .rr) .rr turned.1.reverse)
    back.1.reverse = bytes ∧ back.2 = carry := by
  intro turned back
  have hlength : turned.1.length = bytes.length := length_moveThrough_pass _ _ _ _
  have hlength' : back.1.reverse.length = bytes.length := by
    rw [List.length_reverse, length_moveThrough_pass, List.length_reverse, hlength]
  have hleft : binary.number turned.1 + 256 ^ bytes.length * turned.2.toNat =
      2 * binary.number bytes + carry.toNat := by
    have hpass := number_rotateLeft carry bytes
    rwa [← pass_rotate] at hpass
  have hright : 2 * binary.number back.1.reverse + back.2.toNat =
      binary.number turned.1 + 256 ^ bytes.length * turned.2.toNat := by
    have hpass := number_rotateRight turned.2 turned.1.reverse
    rwa [← pass_rotate, List.reverse_reverse, List.length_reverse, hlength] at hpass
  have hcarry := carry.toNat_le
  have hcarry' := back.2.toNat_le
  have hbit : ∀ a b : Bool, a.toNat = b.toNat → a = b := by decide
  exact ⟨binary_number_inj hlength' (by omega), hbit _ _ (by omega)⟩

end Alu

/-! ## On the processor -/

namespace Core

variable {β : Type} [Bus β] [RamBus β]

/-- The program for one byte: it is put into an operand, its bits are moved there, and the result is
taken to A. -/
def shiftProgram (operand : ByteOperand) (item : ShiftOp × UInt8) : List Instruction :=
  [.loadByte operand item.2, .shift item.1 operand, .load .a operand]

/-- The operand keeps what is put into it: it is a register, or HL points to plain memory. -/
def Keeps (s : Core β) (operand : ByteOperand) : Prop := operand = .atHL → IsRam s.regs.hl

variable {s : Core β} {operand : ByteOperand}

theorem carryOut_shiftProgram (hkeeps : s.Keeps operand) (op : ShiftOp) (v : UInt8) :
    let after := s.carryOut (shiftProgram operand (op, v))
    let moved := Alu.moveBits op s.regs.flags.c v
    after.regs.a = moved.1 ∧ after.regs.flags.c = moved.2 ∧ after.Keeps operand := by
  intro after moved
  cases operand with
  | atHL =>
    have hread (bus : β) (b : UInt8) : Bus.read (Bus.write bus s.regs.hl b) s.regs.hl = b := by
      rw [RamBus.read_write _ _ _ (hkeeps rfl), if_pos rfl]
    have hshift : Alu.shift op s.regs.flags ((s.store s.regs.hl v).read s.regs.hl) =
        Alu.shift op s.regs.flags v := congrArg _ (hread s.bus v)
    refine ⟨(hread _ _).trans (congrArg ByteResult.value hshift),
      congrArg (fun r ↦ r.flags.c) hshift, hkeeps⟩
  | _ => exact ⟨rfl, rfl, fun h ↦ nomatch h⟩

/-- What a program of shifts leaves in A and in the carry are the bits moved through. -/
theorem workThrough_shiftProgram (hkeeps : s.Keeps operand) (items : List (ShiftOp × UInt8)) :
    let done := s.workThrough (shiftProgram operand) items
    let moved := Alu.moveThrough s.regs.flags.c items
    done.1 = moved.1 ∧ done.2.regs.flags.c = moved.2 ∧ done.2.Keeps operand := by
  induction items generalizing s with
  | nil => exact ⟨rfl, rfl, hkeeps⟩
  | cons item items ih =>
    obtain ⟨ha, hc, hkeeps'⟩ := carryOut_shiftProgram hkeeps item.1 item.2
    obtain ⟨hbytes, hcarry, hlast⟩ := ih hkeeps'
    rw [hc] at hbytes hcarry
    exact ⟨congrArg₂ List.cons ha hbytes, hcarry, hlast⟩

/-- **Numbers of any length are doubled, halved, and rotated to and fro.**  A number of `n` bytes,
`n` at least one, is worked through in an operand that keeps what is put into it, from any state of
the flags.

* `sla` on the lowest byte and then `rl` on each higher one leave twice the number, up to multiples
  of `256 ^ n`, and the bit that was at the top in the carry.
* `srl` on the top byte and then `rr` on each lower one leave half of the number, and the bit that
  was the lowest in the carry.
* `sra` on the top byte and then `rr` do the same to the number that the bytes make up in two's
  complement, rounding down.
* `rl` on each byte upwards and then `rr` on each byte downwards leave all bytes and the carry as
  they were. -/
theorem shift_numbers (hkeeps : s.Keeps operand) {bytes : List UInt8} (hbytes : bytes ≠ []) :
    let n := bytes.length
    let number := binary.number bytes
    let doubled := s.workThrough (shiftProgram operand) (Alu.pass .sla .rl bytes)
    let halved := s.workThrough (shiftProgram operand) (Alu.pass .srl .rr bytes.reverse)
    let halvedSigned := s.workThrough (shiftProgram operand) (Alu.pass .sra .rr bytes.reverse)
    let turned := s.workThrough (shiftProgram operand) (Alu.pass (.rotate .rl) .rl bytes)
    let back := turned.2.workThrough (shiftProgram operand)
      (Alu.pass (.rotate .rr) .rr turned.1.reverse)
    (doubled.1.length = n ∧ binary.number doubled.1 = 2 * number % 256 ^ n ∧
        doubled.2.regs.flags.c = number.testBit (8 * n - 1)) ∧
      (halved.1.length = n ∧ binary.number halved.1.reverse = number / 2 ∧
        halved.2.regs.flags.c = number.testBit 0) ∧
      (halvedSigned.1.length = n ∧
        twosComplement halvedSigned.1.reverse = twosComplement bytes / 2 ∧
        halvedSigned.2.regs.flags.c = number.testBit 0) ∧
      back.1.reverse = bytes ∧ back.2.regs.flags.c = s.regs.flags.c := by
  intro n number doubled halved halvedSigned turned back
  obtain ⟨hleft, hleftCarry, -⟩ := workThrough_shiftProgram hkeeps (Alu.pass .sla .rl bytes)
  obtain ⟨hright, hrightCarry, -⟩ :=
    workThrough_shiftProgram hkeeps (Alu.pass .srl .rr bytes.reverse)
  obtain ⟨hsigned, hsignedCarry, -⟩ :=
    workThrough_shiftProgram hkeeps (Alu.pass .sra .rr bytes.reverse)
  obtain ⟨hturned, hturnedCarry, hkeeps'⟩ :=
    workThrough_shiftProgram hkeeps (Alu.pass (.rotate .rl) .rl bytes)
  obtain ⟨hback, hbackCarry, -⟩ :=
    workThrough_shiftProgram hkeeps' (Alu.pass (.rotate .rr) .rr turned.1.reverse)
  rw [hturnedCarry] at hback hbackCarry
  refine ⟨?_, ?_, ?_, ?_⟩
  · rw [hleft, hleftCarry]
    exact Alu.moveThrough_sla s.regs.flags.c hbytes
  · rw [hright, hrightCarry]
    exact Alu.moveThrough_srl s.regs.flags.c hbytes
  · rw [hsigned, hsignedCarry]
    exact Alu.moveThrough_sra s.regs.flags.c hbytes
  · rw [hback, hbackCarry, hturned]
    exact Alu.moveThrough_back s.regs.flags.c bytes

/-- The number 8001 in work RAM, with the carry set: both of its ends leave through the carry, and
in two's complement it is negative and odd. -/
theorem shift_numbers_bothEnds :
    let s : Core Memory := ⟨{ regs := { h := 0xC0, flags := { c := true } } }, .zero⟩
    let bytes : List UInt8 := [0x01, 0x80]
    let doubled := s.workThrough (shiftProgram .atHL) (Alu.pass .sla .rl bytes)
    let halved := s.workThrough (shiftProgram .atHL) (Alu.pass .srl .rr bytes.reverse)
    let halvedSigned := s.workThrough (shiftProgram .atHL) (Alu.pass .sra .rr bytes.reverse)
    let turned := s.workThrough (shiftProgram .atHL) (Alu.pass (.rotate .rl) .rl bytes)
    let back := turned.2.workThrough (shiftProgram .atHL)
      (Alu.pass (.rotate .rr) .rr turned.1.reverse)
    s.Keeps .atHL ∧ bytes ≠ [] ∧
      binary.number doubled.1 = 0x0002 ∧ doubled.2.regs.flags.c = true ∧
      binary.number halved.1.reverse = 0x4000 ∧ halved.2.regs.flags.c = true ∧
      twosComplement bytes = -32767 ∧ twosComplement halvedSigned.1.reverse = -16384 ∧
      back.1.reverse = bytes ∧ back.2.regs.flags.c = true := by
  intro s bytes doubled halved halvedSigned turned back
  have hkeeps : s.Keeps .atHL := by
    intro _
    show IsRam (Word.ofBytes 0xC0 0x00)
    decide
  have hbytes : bytes ≠ [] := List.cons_ne_nil _ _
  have hlength : bytes.length = 2 := rfl
  have hnumber : binary.number bytes = 0x8001 := by
    simp [bytes, ByteDigits.number_cons, ByteDigits.number_nil]
  have hsigned : twosComplement bytes = -32767 := by
    rw [twosComplement, hnumber, hlength]
    decide
  obtain ⟨⟨-, hdouble, hdoubleOut⟩, ⟨-, hhalf, hhalfOut⟩, ⟨-, hhalfSigned, -⟩, hback, hbackOut⟩ :=
    shift_numbers hkeeps hbytes
  rw [hnumber] at hdouble hdoubleOut hhalf hhalfOut
  rw [hsigned] at hhalfSigned
  rw [hlength] at hdouble hdoubleOut
  exact ⟨hkeeps, hbytes, hdouble, hdoubleOut, hhalf, hhalfOut, hsigned, hhalfSigned, hback,
    hbackOut⟩

end Core
end Handheld
