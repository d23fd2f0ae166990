import Handheld.Proofs.Cpu.ProgramCounter
import Mathlib.Algebra.GroupWithZero.Nat

/-!
# A step does what the listing says

A listing is text, and whoever reads it goes by the text: a line that begins with `JR`, `CALL` and
so on is a branch, the condition in front of its target says when it is taken, and the target is
written at the end.  This file takes a line at its word.  `Listing.operation`, `Listing.condition?`
and `Listing.NamesAddress` read a text without looking at the instruction behind it, and
`Core.steps_as_listed` says that a step does what can be read off the line at the program counter:
it fails on a `DB`, goes on behind the line unless the line is a branch that is taken, and otherwise
goes to the address that is written there.

How long a line is stands in the table of instructions, and how far the processor gets comes of what
it fetches; that the two agree is `Core.fetch_eq`.  The bus is any bus and the program counter any
address, so the bytes of an instruction may lie on both sides of the end of memory or of the end of
the boot program.
-/

set_option autoImplicit false

namespace Handheld

/-! ## Addresses as text -/

namespace Hex

/-- The value of a digit. -/
def digitValue (c : Char) : Nat := if c ≤ '9' then c.toNat - 48 else c.toNat - 55

/-- The number that digits stand for. -/
def value (digits : List Char) : Nat := digits.foldl (fun n c ↦ 16 * n + digitValue c) 0

theorem digitValue_digit : ∀ n < 16, digitValue (digit n) = n := by decide

theorem value_digits (width n : Nat) : value (digits width n) = n % 16 ^ width := by
  induction width generalizing n with
  | zero => exact (Nat.mod_one n).symm
  | succ width ih =>
    have hfront := ih (n / 16)
    rw [value] at hfront
    rw [digits, value, List.foldl_append, hfront, List.foldl_cons, List.foldl_nil,
      digitValue_digit _ (Nat.mod_lt n (by decide)), Nat.pow_succ', Nat.mod_mul]
    omega

/-- A word is what its digits stand for. -/
theorem value_word (w : UInt16) : value (word w).toList = w.toNat := by
  rw [word, String.toList_ofList, value_digits]
  exact Nat.mod_eq_of_lt w.toNat_lt

/-- Words that print alike are the same. -/
theorem word_injective : Function.Injective word := by
  intro v w h
  have hvalue := value_word v
  rw [h, value_word] at hvalue
  exact UInt16.toNat_inj.1 hvalue.symm

theorem length_word (w : UInt16) : (word w).toList.length = 4 := by
  rw [word, String.toList_ofList, length_digits]

end Hex

/-! ## Reading a line -/

namespace Listing

/-- The name of the operation: the text up to the first blank. -/
def operation (text : String) : String := String.ofList (text.toList.takeWhile (· ≠ ' '))

/-- The first operand: what follows the blank, up to the first comma. -/
def operand (text : String) : List Char :=
  ((text.toList.dropWhile (· ≠ ' ')).drop 1).takeWhile (· ≠ ',')

/-- The condition that the first operand is, if it is one. -/
def condition? (text : String) : Option Condition :=
  [Condition.notZero, .zero, .notCarry, .carry].find? fun c ↦ c.name.toList = operand text

/-- The names of the branches. -/
def branchNames : List String := ["JR", "JP", "CALL", "RET", "RETI", "RST"]

/-- The names of the other operations. -/
def plainNames : List String :=
  ["NOP", "STOP", "HALT", "DI", "EI", "LD", "LDH", "PUSH", "POP", "INC", "DEC", "ADD", "ADC",
    "SUB", "SBC", "AND", "XOR", "OR", "CP", "RLCA", "RRCA", "RLA", "RRA", "DAA", "CPL", "SCF",
    "CCF", "RLC", "RRC", "RL", "RR", "SLA", "SRA", "SWAP", "SRL", "BIT", "RES", "SET"]

/-- The text is a branch, and its condition is met if it has one. -/
def Branches (text : String) (flags : Flags) : Prop :=
  operation text ∈ branchNames ∧ ∀ c ∈ condition? text, c.holds flags = true

/-- The text is a branch that has its target written out. -/
def HasTarget (text : String) : Prop :=
  operation text = "JR" ∨ operation text = "CALL" ∨ operation text = "JP" ∧ text ≠ "JP (HL)"

/-- The text ends with an address. -/
def NamesAddress (text : String) (a : UInt16) : Prop := ∃ front, text = front ++ "$" ++ Hex.word a

/-- A text ends with one address at most. -/
theorem namesAddress_iff {text front : String} {a : UInt16}
    (h : text = front ++ "$" ++ Hex.word a) (b : UInt16) : NamesAddress text b ↔ a = b := by
  constructor
  · rintro ⟨front', h'⟩
    have hchars : (front ++ "$").toList ++ (Hex.word a).toList =
        (front' ++ "$").toList ++ (Hex.word b).toList := by
      rw [← String.toList_append, ← String.toList_append, ← h, h']
    have hlast := List.append_inj_right' hchars ((Hex.length_word a).trans (Hex.length_word b).symm)
    exact Hex.word_injective (String.toList_injective hlast)
  · rintro rfl
    exact ⟨front, h⟩

end Listing

/-! ## What an instruction reads as -/

namespace Instruction

open Listing

/-- An instruction is written with the name of a branch exactly when it is one. -/
theorem operation_mem (i : Instruction) (style : OperandStyle) :
    operation (i.render style) ∈ if i.isBranch then branchNames else plainNames := by
  cases i with
  | alu op src => cases op <;> simp [operation, render, AluOp.name, isBranch, plainNames]
  | aluByte op v => cases op <;> simp [operation, render, AluOp.name, isBranch, plainNames]
  | rotateA rotation =>
    cases rotation <;> simp [operation, render, Rotation.name, isBranch, plainNames]
  | shift op src =>
    cases op with
    | rotate rotation =>
      cases rotation <;>
        simp [operation, render, ShiftOp.name, Rotation.name, isBranch, plainNames]
    | _ => simp [operation, render, ShiftOp.name, isBranch, plainNames]
  | ret c => cases c <;> simp [operation, render, isBranch, branchNames]
  | _ => simp [operation, render, isBranch, branchNames, plainNames]

theorem operation_mem_branchNames (i : Instruction) (style : OperandStyle) :
    operation (i.render style) ∈ branchNames ↔ i.isBranch = true := by
  have hdisjoint : ∀ name ∈ plainNames, name ∉ branchNames := by decide
  have h := i.operation_mem style
  cases hi : i.isBranch with
  | true => simpa [hi] using h
  | false =>
    rw [hi] at h
    exact iff_of_false (hdisjoint _ h) Bool.false_ne_true

/-- No instruction is written as data. -/
theorem operation_ne_data (i : Instruction) (style : OperandStyle) :
    operation (i.render style) ≠ "DB" := by
  intro hdata
  have h := i.operation_mem style
  rw [hdata] at h
  cases hi : i.isBranch with
  | true =>
    rw [hi] at h
    exact absurd h (by decide)
  | false =>
    rw [hi] at h
    exact absurd h (by decide)

/-- A branch is written with its condition. -/
theorem condition?_render {i : Instruction} (h : i.isBranch = true) (next : UInt16) :
    Listing.condition? (i.render (.listing next)) = i.condition? := by
  cases i with
  | jumpRelative c v | jump c v | call c v =>
    rcases c with _ | _ | _ | _ | _ <;>
      simp [Listing.condition?, operand, render, conditionPart, Condition.name,
        Instruction.condition?, OperandStyle.listing]
  | ret c =>
    rcases c with _ | _ | _ | _ | _ <;>
      simp [Listing.condition?, operand, render, Condition.name, Instruction.condition?]
  | restart slot =>
    have hslot : ∀ slot : Fin 8,
        Listing.condition? ("RST " ++ Hex.byte (UInt8.ofNat (8 * slot.val)) ++ "H") = none := by
      decide
    exact hslot slot
  | jumpHL | reti =>
    simp [Listing.condition?, operand, render, Condition.name, Instruction.condition?]
  | _ => cases h

/-- **The text of an instruction says whether the program goes on elsewhere.** -/
theorem branches_render (i : Instruction) (next : UInt16) (flags : Flags) :
    Branches (i.render (.listing next)) flags ↔ i.isBranch = true ∧ i.isTaken flags = true := by
  rw [Branches, operation_mem_branchNames]
  refine and_congr_right fun h ↦ ?_
  rw [condition?_render h, isTaken]
  cases i.condition? <;> simp

/-- **A branch that has its target written out is written with the address it leads to.** -/
theorem namesAddress_target {i : Instruction} {β : Type} [Bus β] (s : Core β)
    (h : i.isBranch = true) (ht : HasTarget (i.render (.listing s.regs.pc))) (a : UInt16) :
    NamesAddress (i.render (.listing s.regs.pc)) a ↔ i.target s = a := by
  cases i with
  | jumpRelative c v | jump c v | call c v =>
    exact namesAddress_iff String.append_assoc.symm a
  | ret c => cases c <;> simp [HasTarget, operation, render] at ht
  | restart slot => simp [HasTarget, operation, render] at ht
  | jumpHL | reti => simp [HasTarget, operation, render] at ht
  | _ => cases h

end Instruction

/-! ## The line at the program counter -/

namespace ListingLine

variable {β : Type} [Bus β] {bus : β} {a : UInt16}

/-- The line is one byte that begins no instruction. -/
def IsData (line : ListingLine) (b : UInt8) : Prop :=
  line.bytes = [b] ∧ line.text = "DB $" ++ Hex.byte b

theorem read_of_fetch {i : Instruction} (h : Instruction.fetch? bus a = some i) :
    (read bus a).length = i.length ∧
      (read bus a).text = i.render (.listing (a + UInt16.ofNat i.length)) := by
  rw [read, h, length]
  exact ⟨by simp, rfl⟩

/-- An instruction is not listed as data. -/
theorem not_isData_of_fetch {i : Instruction} (h : Instruction.fetch? bus a = some i) (b : UInt8) :
    ¬(read bus a).IsData b := by
  rintro ⟨-, hb⟩
  have hop := i.operation_ne_data (.listing (a + UInt16.ofNat i.length))
  rw [← (read_of_fetch h).2, hb] at hop
  exact hop (by simp [Listing.operation])

theorem read_of_fetch_none (h : Instruction.fetch? bus a = none) (b : UInt8) :
    (read bus a).IsData b ↔ Bus.read bus a = b := by
  rw [read, h]
  constructor
  · rintro ⟨hb, -⟩
    exact List.head_eq_of_cons_eq hb
  · rintro rfl
    exact ⟨rfl, rfl⟩

end ListingLine

/-! ## The step -/

namespace Core

variable {β : Type} [Bus β]

/-- The next step does what a line says. -/
structure StepsAsListed (s : Core β) (line : ListingLine) : Prop where
  /-- It fails exactly on a byte of data, and names the byte and its address. -/
  rejects_iff : ∀ b a, s.step.answer = .error (.unknownOpcode b a) ↔
    a = s.regs.pc ∧ line.IsData b
  succeeds : (∀ b, ¬line.IsData b) → ∃ cycles, s.step.answer = .ok cycles
  /-- The program goes on behind the line, unless the line is a branch that is taken. -/
  goes_on : (∀ b, ¬line.IsData b) → ¬Listing.Branches line.text s.regs.flags →
    s.step.state.regs.pc = s.regs.pc + UInt16.ofNat line.length
  /-- A branch that is taken leads to the address that is written there. -/
  goes_to : Listing.Branches line.text s.regs.flags → Listing.HasTarget line.text →
    ∀ a, Listing.NamesAddress line.text a ↔ s.step.state.regs.pc = a

variable {s : Core β}

/-- An instruction is listed as what it does. -/
theorem stepsAsListed_of_execute {i : Instruction} (h : s.nextAction = .execute i)
    (hi : Instruction.fetch? s.bus s.regs.pc = some i) :
    s.StepsAsListed (.read s.bus s.regs.pc) := by
  obtain ⟨hlength, htext⟩ := ListingLine.read_of_fetch hi
  have hdata := ListingLine.not_isData_of_fetch hi
  have hanswer : s.step.answer = .ok (i.cycles (i.isTaken s.regs.flags)) := by
    rw [step_of_execute h]
  refine ⟨fun b a ↦ ⟨fun he ↦ ?_, fun ⟨_, hb⟩ ↦ (hdata b hb).elim⟩, fun _ ↦ ⟨_, hanswer⟩,
    fun _ hno ↦ ?_, fun hyes htarget a ↦ ?_⟩
  · rw [hanswer] at he
    cases he
  · rw [htext, i.branches_render, not_and_or] at hno
    rw [hlength]
    rcases hno with hplain | hnot
    · exact step_pc_of_not_isBranch h (Bool.eq_false_iff.2 hplain)
    · rw [step_pc h, if_neg hnot]
  · rw [htext] at hyes htarget ⊢
    obtain ⟨hbranch, htaken⟩ := (i.branches_render _ _).1 hyes
    rw [step_pc h, if_pos htaken]
    exact Instruction.namesAddress_target (s.behind i) hbranch htarget a

/-- A byte that begins no instruction is listed as data. -/
theorem stepsAsListed_of_reject (h : s.nextAction = .reject (s.read s.regs.pc))
    (hi : Instruction.fetch? s.bus s.regs.pc = none) :
    s.StepsAsListed (.read s.bus s.regs.pc) := by
  have hanswer : s.step.answer = .error (.unknownOpcode (s.read s.regs.pc) s.regs.pc) := by
    rw [step, h]
    rfl
  have hdata := ListingLine.read_of_fetch_none hi
  have hself := (hdata _).2 rfl
  have hplain : ¬Listing.Branches (ListingLine.read s.bus s.regs.pc).text s.regs.flags := by
    rw [hself.2, Listing.Branches]
    simp [Listing.operation, Listing.branchNames]
  refine ⟨fun b a ↦ ?_, fun hno ↦ (hno _ hself).elim, fun hno ↦ (hno _ hself).elim,
    fun hyes ↦ (hplain hyes).elim⟩
  rw [hanswer, hdata]
  simp [eq_comm, and_comm, read]

/-- **A step does what the listing says**, whatever the bus and wherever the program counter, unless
the processor sleeps or goes to an interrupt handler. -/
theorem steps_as_listed (hr : s.cpu.runState = .running)
    (hno : ∀ source, s.nextAction ≠ .dispatch source) :
    s.StepsAsListed (.read s.bus s.regs.pc) := by
  have hnext := nextAction_of_not_dispatch hr hno
  cases hi : Instruction.fetch? s.bus s.regs.pc with
  | some i => exact stepsAsListed_of_execute (hnext.trans (fetchAction_of_fetch hi)) hi
  | none => exact stepsAsListed_of_reject (hnext.trans (fetchAction_of_fetch_none hi)) hi

/-- A relative jump that begins in the last byte of memory and ends in the first, and that leads to
itself. -/
def wrappedJump : Core Memory where
  cpu := .startingAt 0xFFFF
  bus := .ofFn fun a ↦ if a = 0xFFFF then 0x18 else if a = 0 then 0xFE else 0

theorem steps_as_listed_wrapped :
    wrappedJump.cpu.runState = .running ∧
      (∀ source, wrappedJump.nextAction ≠ .dispatch source) ∧
      (ListingLine.read wrappedJump.bus 0xFFFF).text = "JR $FFFF" ∧
      wrappedJump.StepsAsListed (.read wrappedJump.bus 0xFFFF) ∧
      wrappedJump.step.state.regs.pc = 0xFFFF := by
  have hno : ∀ source, wrappedJump.nextAction ≠ .dispatch source := by
    intro source h
    cases (nextAction_eq_dispatch_iff.1 h).1
  have hread : ∀ a, Bus.read wrappedJump.bus a =
      if a = 0xFFFF then 0x18 else if a = 0 then 0xFE else 0 := by
    intro a
    exact Memory.read_ofFn (fun a ↦ if a = 0xFFFF then 0x18 else if a = 0 then 0xFE else 0) a
  have hfetch : Instruction.fetch? wrappedJump.bus 0xFFFF = some (.jumpRelative none 0xFE) := by
    rw [Instruction.fetch?, hread, hread, hread]
    rfl
  have hlisted : wrappedJump.StepsAsListed (.read wrappedJump.bus 0xFFFF) :=
    steps_as_listed rfl hno
  have htext : (ListingLine.read wrappedJump.bus 0xFFFF).text = "JR $FFFF" := by
    rw [(ListingLine.read_of_fetch hfetch).2]
    decide
  refine ⟨rfl, hno, htext, hlisted, (hlisted.goes_to ?_ ?_ 0xFFFF).1 ?_⟩
  · rw [htext, Listing.Branches]
    decide
  · rw [htext]
    exact Or.inl (by decide)
  · rw [htext]
    exact ⟨"JR ", by decide⟩

end Core
end Handheld
