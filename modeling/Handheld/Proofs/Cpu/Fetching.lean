import Handheld.Cpu.Listing
import Handheld.Cpu.Step

/-!
# The processor fetches what is listed

There are two ways to read an instruction.  A listing takes three bytes, decodes them at once
(`Instruction.fetch?`), and finds the next line by the length that the instruction is listed with
(`Instruction.length`).  The processor reads the opcode, and then the instruction reads its own
operands (`Core.fetch`); nothing tells it a length, and the program counter ends up behind whatever
has been read.

The two agree: the processor fetches the instruction that is listed at the program counter, and goes
on by the length that it is listed with (`Core.fetch_eq`).  It comes down to two facts about the
instructions.  Behind its opcode each reads as many bytes as it is listed with
(`Instruction.fetchOperands_snd`), and they are the ones that the decoder puts into it
(`Instruction.decode_eq_fetchOperands`).

So a step can be spoken of with the instruction that is listed: `Core.run` goes on by its length and
lets it act, and that is what the step does (`Core.step_of_execute`).
-/

set_option autoImplicit false

namespace Handheld

variable {β : Type} [Bus β]

namespace Core

/-- The core with its program counter moved on by some bytes. -/
def skip (s : Core β) (n : Nat) : Core β := s.mapRegs fun r ↦ { r with pc := r.pc + UInt16.ofNat n }

omit [Bus β] in
@[simp] theorem skip_zero (s : Core β) : s.skip 0 = s := by
  simp [skip, mapRegs]

omit [Bus β] in
@[simp] theorem skip_skip (s : Core β) (m n : Nat) : (s.skip m).skip n = s.skip (m + n) := by
  simp [skip, mapRegs, UInt16.ofNat_add, UInt16.add_assoc]

@[simp] theorem fetchByte_snd (s : Core β) : s.fetchByte.2 = s.skip 1 := rfl

@[simp] theorem fetchWord_snd (s : Core β) : s.fetchWord.2 = s.skip 2 := rfl

end Core

/-! ## Operands -/

namespace Instruction

variable {row column : Nat} {opcode second third : UInt8} {i : Instruction}

/-- **Behind its opcode an instruction reads as many bytes as it is listed with.** -/
theorem fetchOperands_snd (i : Instruction) (s : Core β) :
    (i.fetchOperands s).2 = s.skip (i.length - i.opcodeLength) := by
  cases i <;> simp [fetchOperands, length, opcodeLength, isExtended]

/-- Whatever it reads there, it is as long. -/
theorem length_fetchOperands (i : Instruction) (s : Core β) :
    (i.fetchOperands s).1.length = i.length := by
  cases i <;> rfl

/-! In the first quarter and the last there are immediate operands.  Whichever bytes the decoder has
put into them, the ones at the program counter are read in their place. -/

theorem fetchOperands_decodeFirstQuarter (s : Core β) :
    ((decodeFirstQuarter row column second third).fetchOperands s).1 =
      decodeFirstQuarter row column (s.read s.regs.pc) (s.read (s.regs.pc + 1)) := by
  unfold decodeFirstQuarter
  split
  -- the columns in which rows alternate
  case h_6 | h_7 | h_8 => split <;> rfl
  all_goals rfl

theorem opcodeLength_decodeFirstQuarter :
    (decodeFirstQuarter row column second third).opcodeLength = 1 := by
  unfold decodeFirstQuarter
  split
  case h_6 | h_7 | h_8 => split <;> rfl
  all_goals rfl

theorem fetchOperands_decodeLastQuarter (h : ¬(column = 3 ∧ row = 1)) (s : Core β) :
    (decodeLastQuarter row column second third).map (fun i ↦ (i.fetchOperands s).1) =
      decodeLastQuarter row column (s.read s.regs.pc) (s.read (s.regs.pc + 1)) := by
  unfold decodeLastQuarter
  split
  case h_17 => exact (h ⟨rfl, rfl⟩).elim
  -- the columns with gaps
  case h_21 | h_23 => split <;> rfl
  all_goals rfl

theorem opcodeLength_decodeLastQuarter (h : ¬(column = 3 ∧ row = 1))
    (hi : decodeLastQuarter row column second third = some i) : i.opcodeLength = 1 := by
  unfold decodeLastQuarter at hi
  split at hi
  case h_17 => exact (h ⟨rfl, rfl⟩).elim
  all_goals grind [opcodeLength, isExtended]

/-- In the last quarter one byte stands for the second table. -/
theorem eq_extensionPrefix (hquarter : 3 ≤ opcode.toNat / 64)
    (h : opcode.toNat % 8 = 3 ∧ opcode.toNat / 8 % 8 = 1) : opcode = extensionPrefix := by
  have hlt := opcode.toNat_lt
  have hplace : opcode.toNat = 203 := by omega
  exact UInt8.toNat_inj.1 hplace

/-- **What an instruction reads behind its opcode is what the decoder puts into it.** -/
theorem decode_eq_fetchOperands (h : opcode ≠ extensionPrefix) (s : Core β) :
    decode opcode (s.read s.regs.pc) (s.read (s.regs.pc + 1)) =
      (ofOpcode? opcode).map fun i ↦ (i.fetchOperands s).1 := by
  unfold ofOpcode? decode
  dsimp only
  split
  · rw [Option.map_some, fetchOperands_decodeFirstQuarter]
  · split <;> rfl
  · rfl
  · have hquarter : 3 ≤ opcode.toNat / 64 := by grind
    exact (fetchOperands_decodeLastQuarter (mt (eq_extensionPrefix hquarter) h) s).symm

theorem opcodeLength_ofOpcode? (h : opcode ≠ extensionPrefix) (hi : ofOpcode? opcode = some i) :
    i.opcodeLength = 1 := by
  unfold ofOpcode? decode at hi
  dsimp only at hi
  split at hi
  · rw [← Option.some.inj hi, opcodeLength_decodeFirstQuarter]
  · split at hi <;> cases hi <;> rfl
  · cases hi
    rfl
  · have hquarter : 3 ≤ opcode.toNat / 64 := by grind
    exact opcodeLength_decodeLastQuarter (mt (eq_extensionPrefix hquarter) h) hi

theorem length_decodeExtended (opcode : Nat) : (decodeExtended opcode).length = 2 := by
  rw [decodeExtended]
  split <;> rfl

end Instruction

/-! ## The whole instruction -/

namespace Core

variable {s : Core β} {i : Instruction}

/-- **The processor fetches the instruction that is listed at the program counter, and goes on by
the length that it is listed with**, or stays where it is if none is listed there. -/
theorem fetch_eq (s : Core β) :
    s.fetch = (Instruction.fetch? s.bus s.regs.pc,
      s.skip ((Instruction.fetch? s.bus s.regs.pc).elim 0 Instruction.length)) := by
  have hopcode : Bus.read s.bus s.regs.pc = s.fetchByte.1 := rfl
  have hsecond : Bus.read s.bus (s.regs.pc + 1) = (s.skip 1).read (s.skip 1).regs.pc := rfl
  have hthird : Bus.read s.bus (s.regs.pc + 2) = (s.skip 1).read ((s.skip 1).regs.pc + 1) :=
    congrArg (Bus.read s.bus) (UInt16.add_assoc s.regs.pc 1 1).symm
  rw [Instruction.fetch?, hopcode, hsecond, hthird, fetch]
  dsimp only
  by_cases hextended : s.fetchByte.1 = Instruction.extensionPrefix
  · rw [if_pos hextended, hextended]
    refine Prod.ext rfl ?_
    show (s.skip 1).skip 1 = s.skip (Instruction.decodeExtended _).length
    rw [Instruction.length_decodeExtended, skip_skip]
  · rw [if_neg hextended, Instruction.decode_eq_fetchOperands hextended]
    cases hi : Instruction.ofOpcode? s.fetchByte.1 with
    | none => rw [Option.map_none, Option.elim_none, skip_zero]
    | some i =>
      have hopcodeLength := Instruction.opcodeLength_ofOpcode? hextended hi
      have hlength := i.length_range.1
      refine Prod.ext rfl ?_
      show (i.fetchOperands (s.skip 1)).2 = s.skip (i.fetchOperands (s.skip 1)).1.length
      rw [Instruction.fetchOperands_snd, Instruction.length_fetchOperands, hopcodeLength, skip_skip,
        Nat.add_sub_of_le hlength]

/-- Fetching reads the bus and leaves it as it is. -/
theorem fetch_bus (s : Core β) : s.fetch.2.bus = s.bus := by
  rw [fetch_eq]
  rfl

/-! ## The step -/

/-- A step that goes on with the program carries out what is listed at the program counter. -/
theorem fetchAction_of_fetch (h : Instruction.fetch? s.bus s.regs.pc = some i) :
    s.fetchAction = .execute i := by
  rw [fetchAction, fetch_eq, h]

theorem fetchAction_of_fetch_none (h : Instruction.fetch? s.bus s.regs.pc = none) :
    s.fetchAction = .reject (s.read s.regs.pc) := by
  rw [fetchAction, fetch_eq, h]

/-- So the bytes there are all that it depends on. -/
theorem fetchAction_congr {γ : Type} [Bus γ] {t : Core γ}
    (hfetch : Instruction.fetch? t.bus t.regs.pc = Instruction.fetch? s.bus s.regs.pc)
    (hread : t.read t.regs.pc = s.read s.regs.pc) : t.fetchAction = s.fetchAction := by
  cases hi : Instruction.fetch? s.bus s.regs.pc with
  | some i => rw [fetchAction_of_fetch hi, fetchAction_of_fetch (hfetch.trans hi)]
  | none => rw [fetchAction_of_fetch_none hi, fetchAction_of_fetch_none (hfetch.trans hi), hread]

theorem fetchAction_awake (s : Core β) : s.awake.fetchAction = s.fetchAction :=
  fetchAction_congr rfl rfl

/-- What is carried out is listed at the program counter. -/
theorem fetch_of_execute (h : s.nextAction = .execute i) :
    Instruction.fetch? s.bus s.regs.pc = some i := by
  rw [nextAction] at h
  split at h
  · cases h
  · rw [stoppedAction] at h
    split at h <;> cases h
  · cases h
  · cases hi : Instruction.fetch? s.bus s.regs.pc with
    | some j =>
      rw [fetchAction_of_fetch hi] at h
      cases h
      rfl
    | none =>
      rw [fetchAction_of_fetch_none hi] at h
      cases h

/-- The core about to carry out an instruction: awake, the program counter behind the
instruction. -/
def behind (s : Core β) (i : Instruction) : Core β := s.awake.skip i.length

/-- The core after an instruction that is listed at the program counter. -/
def run (i : Instruction) (s : Core β) : Core β :=
  let t := i.execute (s.behind i)
  { t with cpu := settleEnable s.cpu.enablePending t.cpu }

/-- **An instruction is carried out behind where it is listed.** -/
theorem executeFetched_eq_run (h : Instruction.fetch? s.bus s.regs.pc = some i) :
    s.executeFetched i = s.run i := by
  have hawake : s.awake.fetch.2 = s.behind i := by
    have hi : Instruction.fetch? s.awake.bus s.awake.regs.pc = some i := h
    rw [fetch_eq, hi]
    rfl
  rw [executeFetched, hawake]
  rfl

theorem step_of_execute (h : s.nextAction = .execute i) :
    s.step = ⟨.ok (i.cycles (i.isTaken s.regs.flags)), s.run i⟩ := by
  rw [step, h, perform, executeFetched_eq_run (fetch_of_execute h)]

end Core
end Handheld
