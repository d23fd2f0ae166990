import Handheld.Proofs.Cpu.StraightLine

/-!
# From instructions back to bytes

`Instruction.encode` writes an instruction as bytes.  It is the table of opcodes read the other way:
an opcode is put together from a quarter, a row and a column (`Instruction.opcode`), and where the
row or the column is an operand, from the field that names the operand (`fieldOf`).

Decoding loses nothing: the bytes that an instruction is decoded from are the ones that it is
written with, as far as they belong to it (`Instruction.encode_of_decode`).
-/

set_option autoImplicit false

namespace Handheld

/-! ## Fields -/

/-- The field that names an operand. -/
def fieldOf {α : Type} [DecidableEq α] (ofField : Nat → α) (operand : α) : Nat :=
  ((List.range 8).find? (ofField · = operand)).getD 0

def ByteOperand.field (operand : ByteOperand) : Nat := fieldOf ofField operand

def WordOperand.field (operand : WordOperand) : Nat := fieldOf ofField operand

def StackOperand.field (operand : StackOperand) : Nat := fieldOf ofField operand

def Pointer.field (pointer : Pointer) : Nat := fieldOf ofField pointer

def Condition.field (c : Condition) : Nat := fieldOf ofField c

def AluOp.field (op : AluOp) : Nat := fieldOf ofField op

def Rotation.field (rotation : Rotation) : Nat := fieldOf ofField rotation

def ShiftOp.field (op : ShiftOp) : Nat := fieldOf ofField op

theorem ByteOperand.field_ofField : ∀ n < 8, (ofField n).field = n := by decide

theorem WordOperand.field_ofField : ∀ n < 4, (ofField n).field = n := by decide

theorem StackOperand.field_ofField : ∀ n < 4, (ofField n).field = n := by decide

theorem Pointer.field_ofField : ∀ n < 4, (ofField n).field = n := by decide

theorem Condition.field_ofField : ∀ n < 4, (ofField n).field = n := by decide

theorem AluOp.field_ofField : ∀ n < 8, (ofField n).field = n := by decide

theorem Rotation.field_ofField : ∀ n < 4, (ofField n).field = n := by decide

theorem ShiftOp.field_ofField : ∀ n < 8, (ofField n).field = n := by decide

namespace Instruction

/-! ## Encoding -/

/-- The opcode in a row and a column of a quarter of the table. -/
def opcode (quarter row column : Nat) : UInt8 := UInt8.ofNat (64 * quarter + 8 * row + column)

/-- The bytes of an instruction. -/
def encode : Instruction → List UInt8
  | nop => [opcode 0 0 0]
  | stop padding => [opcode 0 2 0, padding]
  | halt => [opcode 1 6 6]
  | di => [opcode 3 6 3]
  | ei => [opcode 3 7 3]
  | load dst src => [opcode 1 dst.field src.field]
  | loadByte dst v => [opcode 0 dst.field 6, v]
  | loadWord dst v => [opcode 0 (2 * dst.field) 1, Word.lo v, Word.hi v]
  | storeStackPointer a => [opcode 0 1 0, Word.lo a, Word.hi a]
  | loadStackPointer => [opcode 3 7 1]
  | storeVia p => [opcode 0 (2 * p.field) 2]
  | loadVia p => [opcode 0 (2 * p.field + 1) 2]
  | storeHigh v => [opcode 3 4 0, v]
  | loadHigh v => [opcode 3 6 0, v]
  | storeHighC => [opcode 3 4 2]
  | loadHighC => [opcode 3 6 2]
  | storeAt a => [opcode 3 5 2, Word.lo a, Word.hi a]
  | loadAt a => [opcode 3 7 2, Word.lo a, Word.hi a]
  | push src => [opcode 3 (2 * src.field) 5]
  | pop dst => [opcode 3 (2 * dst.field) 1]
  | inc operand => [opcode 0 operand.field 4]
  | dec operand => [opcode 0 operand.field 5]
  | incWord operand => [opcode 0 (2 * operand.field) 3]
  | decWord operand => [opcode 0 (2 * operand.field + 1) 3]
  | addHL src => [opcode 0 (2 * src.field + 1) 1]
  | addStackPointer v => [opcode 3 5 0, v]
  | loadHLStackPointer v => [opcode 3 7 0, v]
  | alu op src => [opcode 2 op.field src.field]
  | aluByte op v => [opcode 3 op.field 6, v]
  | rotateA rotation => [opcode 0 rotation.field 7]
  | daa => [opcode 0 4 7]
  | cpl => [opcode 0 5 7]
  | scf => [opcode 0 6 7]
  | ccf => [opcode 0 7 7]
  | jumpRelative none v => [opcode 0 3 0, v]
  | jumpRelative (some c) v => [opcode 0 (4 + c.field) 0, v]
  | jump none a => [opcode 3 0 3, Word.lo a, Word.hi a]
  | jump (some c) a => [opcode 3 c.field 2, Word.lo a, Word.hi a]
  | jumpHL => [opcode 3 5 1]
  | call none a => [opcode 3 1 5, Word.lo a, Word.hi a]
  | call (some c) a => [opcode 3 c.field 4, Word.lo a, Word.hi a]
  | ret none => [opcode 3 1 1]
  | ret (some c) => [opcode 3 c.field 0]
  | reti => [opcode 3 3 1]
  | restart slot => [opcode 3 slot 7]
  | shift op operand => [opcode 3 1 3, opcode 0 op.field operand.field]
  | testBit n operand => [opcode 3 1 3, opcode 1 n operand.field]
  | resetBit n operand => [opcode 3 1 3, opcode 2 n operand.field]
  | setBit n operand => [opcode 3 1 3, opcode 3 n operand.field]

/-- A byte has its place in the table. -/
theorem opcode_fields (b : UInt8) : opcode (b.toNat / 64) (b.toNat / 8 % 8) (b.toNat % 8) = b := by
  have hfields : 64 * (b.toNat / 64) + 8 * (b.toNat / 8 % 8) + b.toNat % 8 = b.toNat := by omega
  rw [opcode, hfields, UInt8.ofNat_toNat]

theorem bitField_val {n : Nat} (h : n < 8) : (bitField n).val = n := Nat.mod_eq_of_lt h

variable {row column : Nat} {second third : UInt8} {i : Instruction}

theorem encode_decodeExtended (b : UInt8) :
    (decodeExtended b.toNat).encode = [opcode 3 1 3, b] := by
  have hrow : b.toNat / 8 % 8 < 8 := Nat.mod_lt _ (by decide)
  have hcolumn : b.toNat % 8 < 8 := Nat.mod_lt _ (by decide)
  have hplace := opcode_fields b
  obtain hquarter | hquarter | hquarter | hquarter :
      b.toNat / 64 = 0 ∨ b.toNat / 64 = 1 ∨ b.toNat / 64 = 2 ∨ b.toNat / 64 = 3 := by
    have := b.toNat_lt
    omega
  all_goals
    rw [hquarter] at hplace
    simp only [decodeExtended, hquarter, encode, ShiftOp.field_ofField _ hrow, bitField_val hrow,
      ByteOperand.field_ofField _ hcolumn, hplace]

theorem encode_decodeFirstQuarter (hrow : row < 8) (hcolumn : column < 8) :
    (decodeFirstQuarter row column second third).encode =
      [opcode 0 row column, second, third].take
        (decodeFirstQuarter row column second third).length := by
  -- the field of an operand is the row, or half of an even or an odd one
  fun_cases decodeFirstQuarter row column second third <;>
    simp only [encode, length, List.take_succ_cons, List.take_zero] <;>
    grind [ByteOperand.field_ofField, WordOperand.field_ofField, Pointer.field_ofField,
      Condition.field_ofField, Rotation.field_ofField, Word.lo_ofBytes, Word.hi_ofBytes]

theorem encode_decodeLastQuarter (hrow : row < 8) (hcolumn : column < 8)
    (h : decodeLastQuarter row column second third = some i) :
    i.encode = [opcode 3 row column, second, third].take i.length := by
  have hextended := length_decodeExtended second.toNat
  have hbytes := encode_decodeExtended second
  fun_cases decodeLastQuarter row column second third <;>
    simp only [decodeLastQuarter] at h <;> grind [encode, length, StackOperand.field_ofField,
      Condition.field_ofField, AluOp.field_ofField, bitField_val, Word.lo_ofBytes, Word.hi_ofBytes]

/-- **Decoding loses nothing**: an instruction is written with the bytes that it was read from. -/
theorem encode_of_decode {first : UInt8} (h : decode first second third = some i) :
    i.encode = [first, second, third].take i.length := by
  have hrow : first.toNat / 8 % 8 < 8 := Nat.mod_lt _ (by decide)
  have hcolumn : first.toNat % 8 < 8 := Nat.mod_lt _ (by decide)
  have hplace := opcode_fields first
  unfold decode at h
  dsimp only at h
  split at h
  · rename_i hquarter
    obtain rfl := Option.some.inj h
    rw [encode_decodeFirstQuarter hrow hcolumn, ← hquarter, hplace]
  · rename_i hquarter
    split at h
    · rename_i hhalt
      obtain rfl := Option.some.inj h
      rw [hquarter, hhalt.1, hhalt.2] at hplace
      exact congrArg ([·]) hplace
    · obtain rfl := Option.some.inj h
      rw [encode, ByteOperand.field_ofField _ hrow, ByteOperand.field_ofField _ hcolumn,
        ← hquarter, hplace]
      rfl
  · rename_i hquarter
    obtain rfl := Option.some.inj h
    rw [encode, AluOp.field_ofField _ hrow, ByteOperand.field_ofField _ hcolumn, ← hquarter, hplace]
    rfl
  · have hquarter : first.toNat / 64 = 3 := by
      have := first.toNat_lt
      grind
    rw [encode_decodeLastQuarter hrow hcolumn h, ← hquarter, hplace]

end Instruction

/-- The bytes of a line are those of its instruction. -/
theorem ListingLine.bytes_of_fetch {β : Type} [Bus β] {bus : β} {a : UInt16} {i : Instruction}
    (h : Instruction.fetch? bus a = some i) : (ListingLine.read bus a).bytes = i.encode := by
  have hencode := Instruction.encode_of_decode h
  obtain ⟨hone, hthree⟩ := i.length_range
  rw [read, h]
  dsimp only
  rw [hencode]
  obtain hlength | hlength | hlength : i.length = 1 ∨ i.length = 2 ∨ i.length = 3 := by omega
  all_goals
    rw [hlength]
    simp [List.range_succ]

end Handheld
