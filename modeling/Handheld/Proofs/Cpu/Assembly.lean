import Handheld.Proofs.Cpu.Encoded
import Handheld.Proofs.Cpu.Words
import Mathlib.Data.List.Forall2

/-!
# A listing can be assembled

The text of a line is enough to have its bytes again: `Listing.assemble` reads a text at an address
as an instruction and encodes it, or as a byte of data, and for the text of a line it answers the
bytes of the line (`ListingLine.assemble_text`).  The one exception is the byte behind a `stop`,
which is not written.  So lines that read alike have the same bytes (`ListingLine.text_eq_iff`), and
so have listings (`ListingLine.readMany_bytesAgree`).

An instruction is written with its words (`Instruction.render_listing`) and can be told from them
(`Instruction.ofWords_operands`).  What has to be seen for the second is that operations which share
a name differ in their operands: `LD` stands for a dozen instructions.  A relative jump is written
with the address it leads to, which is why an address is needed to read it; sums of addresses wrap,
and so does the difference that gives the displacement back.
-/

set_option autoImplicit false

namespace Handheld

/-! ## Instructions as words -/

def StackOperand.written : StackOperand → Operand
  | bc => .word .bc
  | de => .word .de
  | hl => .word .hl
  | af => .af

/-- A condition as it is written: that the carry flag is set is written like the register. -/
def Condition.written : Condition → Operand
  | notZero => .notZero
  | zero => .zero
  | notCarry => .notCarry
  | carry => .byte .c

/-- The operands of an operation on the accumulator, which some name and some do not. -/
def AluOp.written (op : AluOp) (src : Operand) : List Operand :=
  match op with
  | add | adc | sbc => [.byte .a, src]
  | sub | and | xor | or | cp => [src]

namespace Operand

/-- The word on the stack that an operand is. -/
def stack? : Operand → Option StackOperand
  | word .bc => some .bc
  | word .de => some .de
  | word .hl => some .hl
  | af => some .af
  | _ => none

def condition? : Operand → Option Condition
  | notZero => some .notZero
  | zero => some .zero
  | notCarry => some .notCarry
  | byte .c => some .carry
  | _ => none

/-- The operands of a branch. -/
def branch (c : Option Condition) (target : UInt16) : List Operand :=
  c.toList.map Condition.written ++ [address target]

/-- The condition and the target of a branch. -/
def branch? : List Operand → Option (Option Condition × UInt16)
  | [address target] => some (none, target)
  | [c, address target] => c.condition?.map (some ·, target)
  | _ => none

end Operand

namespace Instruction

def mnemonic : Instruction → Mnemonic
  | nop => .nop
  | stop _ => .stop
  | halt => .halt
  | di => .di
  | ei => .ei
  | load .. | loadByte .. | loadWord .. | storeStackPointer _ | loadStackPointer | storeVia _
  | loadVia _ | storeHighC | loadHighC | storeAt _ | loadAt _ | loadHLStackPointer _ => .ld
  | storeHigh _ | loadHigh _ => .ldh
  | push _ => .push
  | pop _ => .pop
  | inc _ | incWord _ => .inc
  | dec _ | decWord _ => .dec
  | addHL _ | addStackPointer _ => .alu .add
  | alu op _ | aluByte op _ => .alu op
  | rotateA rotation => .rotateA rotation
  | daa => .daa
  | cpl => .cpl
  | scf => .scf
  | ccf => .ccf
  | jumpRelative .. => .jr
  | jump .. | jumpHL => .jp
  | call .. => .call
  | ret _ => .ret
  | reti => .reti
  | restart _ => .rst
  | shift op _ => .shift op
  | testBit .. => .bit
  | resetBit .. => .res
  | setBit .. => .set

/-- The operands that the instruction at `a` is written with. -/
def operands (a : UInt16) : Instruction → List Operand
  | load dst src => [.byte dst, .byte src]
  | loadByte dst v => [.byte dst, .value v]
  | loadWord dst v => [.word dst, .address v]
  | storeStackPointer b => [.byteAt b, .word .sp]
  | loadStackPointer => [.word .sp, .word .hl]
  | storeVia p => [.pointer p, .byte .a]
  | loadVia p => [.byte .a, .pointer p]
  | storeHigh v => [.byteAt (Word.ofBytes 0xFF v), .byte .a]
  | loadHigh v => [.byte .a, .byteAt (Word.ofBytes 0xFF v)]
  | storeHighC => [.atC, .byte .a]
  | loadHighC => [.byte .a, .atC]
  | storeAt b => [.byteAt b, .byte .a]
  | loadAt b => [.byte .a, .byteAt b]
  | push src => [src.written]
  | pop dst => [dst.written]
  | inc operand | dec operand => [.byte operand]
  | incWord operand | decWord operand => [.word operand]
  | addHL src => [.word .hl, .word src]
  | addStackPointer v => [.word .sp, .number v]
  | loadHLStackPointer v => [.word .hl, .stackOffset v]
  | alu op src => op.written (.byte src)
  | aluByte op v => op.written (.value v)
  | jumpRelative c v => Operand.branch c (a + 2 + Word.signExtend v)
  | jump c b | call c b => Operand.branch c b
  | jumpHL => [.byte .atHL]
  | ret c => c.toList.map Condition.written
  | restart slot => [.slot slot]
  | shift _ operand => [.byte operand]
  | testBit n operand | resetBit n operand | setBit n operand =>
    [.number (UInt8.ofNat n.val), .byte operand]
  | _ => []

/-- The instruction that is written at `a` with these words. -/
def ofWords (a : UInt16) : Mnemonic → List Operand → Option Instruction
  | .nop, [] => some nop
  | .stop, [] => some (stop 0)
  | .halt, [] => some halt
  | .di, [] => some di
  | .ei, [] => some ei
  | .ld, [.byte .a, .pointer p] => some (loadVia p)
  | .ld, [.byte .a, .atC] => some loadHighC
  | .ld, [.byte .a, .byteAt b] => some (loadAt b)
  | .ld, [.byte dst, .byte src] => some (load dst src)
  | .ld, [.byte dst, .value v] => some (loadByte dst v)
  | .ld, [.word dst, .address v] => some (loadWord dst v)
  | .ld, [.word .sp, .word .hl] => some loadStackPointer
  | .ld, [.word .hl, .stackOffset v] => some (loadHLStackPointer v)
  | .ld, [.pointer p, .byte .a] => some (storeVia p)
  | .ld, [.atC, .byte .a] => some storeHighC
  | .ld, [.byteAt b, .byte .a] => some (storeAt b)
  | .ld, [.byteAt b, .word .sp] => some (storeStackPointer b)
  | .ldh, [.byteAt b, .byte .a] => some (storeHigh (Word.lo b))
  | .ldh, [.byte .a, .byteAt b] => some (loadHigh (Word.lo b))
  | .push, [src] => src.stack?.map push
  | .pop, [dst] => dst.stack?.map pop
  | .inc, [.byte operand] => some (inc operand)
  | .inc, [.word operand] => some (incWord operand)
  | .dec, [.byte operand] => some (dec operand)
  | .dec, [.word operand] => some (decWord operand)
  | .alu .add, [.word .hl, .word src] => some (addHL src)
  | .alu .add, [.word .sp, .number v] => some (addStackPointer v)
  | .alu op, [.byte .a, .byte src] => some (alu op src)
  | .alu op, [.byte .a, .value v] => some (aluByte op v)
  | .alu op, [.byte src] => some (alu op src)
  | .alu op, [.value v] => some (aluByte op v)
  | .rotateA rotation, [] => some (rotateA rotation)
  | .daa, [] => some daa
  | .cpl, [] => some cpl
  | .scf, [] => some scf
  | .ccf, [] => some ccf
  | .jr, operands => (Operand.branch? operands).map fun (c, target) ↦
      jumpRelative c (Word.lo (target - (a + 2)))
  | .jp, [.byte .atHL] => some jumpHL
  | .jp, operands => (Operand.branch? operands).map fun (c, target) ↦ jump c target
  | .call, operands => (Operand.branch? operands).map fun (c, target) ↦ call c target
  | .ret, [] => some (ret none)
  | .ret, [c] => c.condition?.map (ret <| some ·)
  | .reti, [] => some reti
  | .rst, [.slot slot] => some (restart slot)
  | .shift op, [.byte operand] => some (shift op operand)
  | .bit, [.number n, .byte operand] => some (testBit (bitField n.toNat) operand)
  | .res, [.number n, .byte operand] => some (resetBit (bitField n.toNat) operand)
  | .set, [.number n, .byte operand] => some (setBit (bitField n.toNat) operand)
  | _, _ => none

/-- The instruction as far as it is written: the byte behind a `stop` is not. -/
def unpadded : Instruction → Instruction
  | stop _ => stop 0
  | i => i

theorem lo_displacement (next : UInt16) (v : UInt8) :
    Word.lo (next + Word.signExtend v - next) = v := by
  have hback : next + Word.signExtend v - next = Word.signExtend v := by grind
  rw [hback]
  exact (by decide +kernel : ∀ v, Word.lo (Word.signExtend v) = v) v

theorem bitField_ofNat : ∀ n : Fin 8, bitField (UInt8.ofNat n.val).toNat = n := by decide

/-- **An instruction can be told from its words.** -/
theorem ofWords_operands (i : Instruction) (a : UInt16) :
    ofWords a i.mnemonic (i.operands a) = some i.unpadded := by
  cases i with
  | load dst src | loadByte dst v => cases dst <;> rfl
  | storeHigh v => exact congrArg (some <| storeHigh ·) (Word.lo_ofBytes 0xFF v)
  | loadHigh v => exact congrArg (some <| loadHigh ·) (Word.lo_ofBytes 0xFF v)
  | push operand | pop operand => cases operand <;> rfl
  | alu op src => cases op <;> cases src <;> rfl
  | aluByte op v => cases op <;> rfl
  | jumpRelative c v =>
    have hv := lo_displacement (a + 2) v
    rcases c with _ | _ | _ | _ | _ <;> exact congrArg (some <| jumpRelative _ ·) hv
  | jump c b | call c b | ret c => rcases c with _ | _ | _ | _ | _ <;> rfl
  | testBit n operand => exact congrArg (some <| testBit · operand) (bitField_ofNat n)
  | resetBit n operand => exact congrArg (some <| resetBit · operand) (bitField_ofNat n)
  | setBit n operand => exact congrArg (some <| setBit · operand) (bitField_ofNat n)
  | _ => rfl

theorem word_high (v : UInt8) :
    (Hex.word (Word.ofBytes 0xFF v)).toList = 'F' :: 'F' :: (Hex.byte v).toList := by
  have hdigits : ∀ v : UInt8, Hex.digits 4 (Word.ofBytes 0xFF v).toNat =
      'F' :: 'F' :: Hex.digits 2 v.toNat := by decide +kernel
  rw [Hex.word, Hex.byte, String.toList_ofList, String.toList_ofList, hdigits]

theorem toString_bit :
    ∀ n : Fin 8, toString n.val = toString (Word.signed (UInt8.ofNat n.val)) := by decide

/-- An instruction is written with its words. -/
theorem render_listing (i : Instruction) (a : UInt16) :
    (i.render (.listing (a + UInt16.ofNat i.length))).toList =
      Listing.line i.mnemonic (i.operands a) := by
  cases i with
  | alu op src | aluByte op v =>
    cases op <;>
      simp [render, Listing.line, mnemonic, operands, Mnemonic.name, Operand.text,
        OperandStyle.listing, AluOp.name, AluOp.written, ByteOperand.name, Listing.operation]
  | push operand | pop operand =>
    cases operand <;>
      simp [render, Listing.line, mnemonic, operands, Mnemonic.name, Operand.text,
        StackOperand.name, StackOperand.written, WordOperand.name]
  | jumpRelative c v | jump c b | call c b | ret c =>
    rcases c with _ | _ | _ | _ | _ <;>
      simp [render, Listing.line, mnemonic, operands, Mnemonic.name, Operand.text,
        OperandStyle.listing, Operand.branch, conditionPart, Condition.name, Condition.written,
        ByteOperand.name, length]
  | testBit n operand | resetBit n operand | setBit n operand =>
    rw [render, toString_bit]
    simp [Listing.line, mnemonic, operands, Mnemonic.name, Operand.text]
  | addHL src | addStackPointer v =>
    simp [render, Listing.line, mnemonic, operands, Mnemonic.name, Operand.text,
      OperandStyle.listing, AluOp.name, WordOperand.name, Listing.operation]
  | _ =>
    simp [render, Listing.line, mnemonic, operands, Mnemonic.name, Operand.text,
      OperandStyle.listing, ByteOperand.name, WordOperand.name, word_high]

end Instruction

/-! ## Assembling -/

namespace Listing

/-- The bytes that a text at an address stands for. -/
def assemble (a : UInt16) (text : String) : Option (List UInt8) :=
  match parse text.toList with
  | some (.db, [.value v]) => some [v]
  | some (m, operands) => (Instruction.ofWords a m operands).map Instruction.encode
  | none => none

/-- The text of an instruction stands for it, as far as it is written. -/
theorem assemble_render (i : Instruction) (a : UInt16) :
    assemble a (i.render (.listing (a + UInt16.ofNat i.length))) = some i.unpadded.encode := by
  have hparse := parse_line i.mnemonic (i.operands a)
  have hwords := i.ofWords_operands a
  rw [assemble, i.render_listing, hparse]
  split
  · -- no instruction is written as data
    rename_i v hdata
    obtain ⟨hdb, hvalue⟩ := Prod.mk.inj (Option.some.inj hdata)
    rw [hdb, hvalue] at hwords
    cases hwords
  · rename_i hsome
    obtain ⟨rfl, rfl⟩ := Prod.mk.inj (Option.some.inj hsome)
    rw [hwords]
    rfl
  · contradiction

theorem assemble_data (a : UInt16) (b : UInt8) :
    assemble a ("DB $" ++ Hex.byte b) = some [b] := by
  have hline : ("DB $" ++ Hex.byte b).toList = line .db [.value b] := by
    simp [line, Mnemonic.name, Operand.text]
  rw [assemble, hline, parse_line]

end Listing

namespace ListingLine

variable {β : Type} [Bus β]

/-- **A line can be assembled again**: its text stands for its bytes.  Only the byte behind a `stop`
comes out as zero, whatever it was, for it is not written. -/
theorem assemble_text (bus : β) (a : UInt16) :
    Listing.assemble a (read bus a).text = some (read bus a).bytes ∨
      Listing.assemble a (read bus a).text = some [0x10, 0] ∧
        ∃ padding, (read bus a).bytes = [0x10, padding] := by
  cases hi : Instruction.fetch? bus a with
  | none =>
    left
    rw [read, hi]
    exact Listing.assemble_data a _
  | some i =>
    obtain ⟨-, htext⟩ := read_of_fetch hi
    rw [htext, bytes_of_fetch hi, Listing.assemble_render]
    cases i with
    | stop padding => exact .inr ⟨rfl, padding, rfl⟩
    | _ => exact .inl rfl

-- at 0002 a jump to itself goes back by two
example : Listing.assemble 0x0002 "JR NZ,$0002" = some [0x20, 0xFE] := by decide +kernel

/-- The bytes of a line are those that are read there. -/
theorem bytes_read (bus : β) (a : UInt16) : (read bus a).bytes =
    (List.range (read bus a).length).map fun k ↦ Bus.read bus (a + UInt16.ofNat k) := by
  rw [length, read]
  split <;> simp

/-- A line whose bytes are those of a `stop` is listed as one, whatever the second byte. -/
theorem text_of_stop {bus : β} {a : UInt16} {padding : UInt8}
    (h : (read bus a).bytes = [0x10, padding]) : (read bus a).text = "STOP" := by
  have hbytes := bytes_read bus a
  have hlength : (read bus a).length = 2 := by rw [length, h]; rfl
  rw [hlength, h] at hbytes
  have hopcode : Bus.read bus a = 0x10 := by simpa using (List.head_eq_of_cons_eq hbytes).symm
  have hi : Instruction.fetch? bus a = some (.stop (Bus.read bus (a + 1))) := by
    rw [Instruction.fetch?, hopcode]
    rfl
  rw [(read_of_fetch hi).2]
  rfl

/-- The lines have the same bytes, or both of them are a `stop`, whatever the bytes behind. -/
def BytesAgree (line line' : ListingLine) : Prop :=
  line.bytes = line'.bytes ∨
    ∃ padding padding', line.bytes = [0x10, padding] ∧ line'.bytes = [0x10, padding']

theorem BytesAgree.length_eq {line line' : ListingLine} (h : line.BytesAgree line') :
    line.length = line'.length := by
  rcases h with hbytes | ⟨padding, padding', hbytes, hbytes'⟩
  · exact congrArg List.length hbytes
  · rw [length, length, hbytes, hbytes']
    rfl

variable {bus bus' : β} {a : UInt16}

/-- What two texts that are the same stand for is the same. -/
theorem bytesAgree_of_text (h : (read bus a).text = (read bus' a).text) :
    (read bus a).BytesAgree (read bus' a) := by
  have hbus := assemble_text bus a
  rw [h] at hbus
  rcases hbus with hbus | ⟨hbus, padding, hbytes⟩ <;>
    rcases assemble_text bus' a with hbus' | ⟨hbus', padding', hbytes'⟩
  · exact .inl (Option.some.inj (hbus.symm.trans hbus'))
  · exact .inr ⟨0, padding', Option.some.inj (hbus.symm.trans hbus'), hbytes'⟩
  · exact .inr ⟨padding, 0, hbytes, Option.some.inj (hbus'.symm.trans hbus)⟩
  · exact .inr ⟨padding, padding', hbytes, hbytes'⟩

/-- **Listings that read alike have the same bytes**, line by line, if they begin at one address. -/
theorem readMany_bytesAgree {n : Nat}
    (h : (readMany bus n a).map text = (readMany bus' n a).map text) :
    List.Forall₂ BytesAgree (readMany bus n a) (readMany bus' n a) := by
  induction n generalizing a with
  | zero => exact .nil
  | succ n ih =>
    rw [readMany, readMany, List.map_cons, List.map_cons] at h
    obtain ⟨htext, hrest⟩ := List.cons.inj h
    have hline := bytesAgree_of_text htext
    -- the lines are equally long, so the next ones begin at one address as well
    rw [hline.length_eq] at hrest
    rw [readMany, readMany, hline.length_eq]
    exact .cons hline (ih hrest)

/-- **The text of a line determines its bytes**, up to the byte behind a `stop`, which is not
written: two lines at one address, whatever the memories, read alike exactly when their bytes are
the same or both of them are a `stop`. -/
theorem text_eq_iff (bus bus' : β) (a : UInt16) :
    (read bus a).text = (read bus' a).text ↔ (read bus a).BytesAgree (read bus' a) := by
  refine ⟨bytesAgree_of_text, ?_⟩
  rintro (hbytes | ⟨padding, padding', hbytes, hbytes'⟩)
  · have hlength : (read bus a).length = (read bus' a).length := congrArg List.length hbytes
    rw [bytes_read, bytes_read, hlength, List.map_inj_left] at hbytes
    have hsame : read bus a = read bus' a :=
      read_congr fun k hk ↦ hbytes k (List.mem_range.2 hk)
    rw [hsame]
  · rw [text_of_stop hbytes, text_of_stop hbytes']

end ListingLine
end Handheld
