import Handheld.Proofs.Bus.Overlay
import Handheld.Proofs.Cpu.Listed

/-!
# A straight program runs as it is listed

A listing is made before the program runs, from the bytes that are in memory then.  It tells how the
program is going to run if two things are so: every line is carried out and followed by the next
one, and its bytes are still there when its turn comes.

The first is so of a line that is `ListingLine.Straight`, which can be seen from its text: it is no
data, no branch, and does not put the processor to sleep (`Core.step_of_straight`).  The second is
so of a line that is `ListingLine.InCartridge`, wherever the instructions before it store to, for no
store changes what is read there (`SystemBus.read_replay_of_cartridge`).  A listing
decodes three bytes even for an instruction that is shorter, and those behind the last line may be
in video memory and change; but only as many bytes count as the instruction has
(`Instruction.decode_congr`).

`Core.runs_as_listed` puts the lines together.
-/

set_option autoImplicit false

namespace Handheld

/-! ## Which bytes an instruction is made of -/

namespace Instruction

variable {row column : Nat} {opcode second third second' third' : UInt8} {i : Instruction}

theorem decodeFirstQuarter_congr
    (h : decodeFirstQuarter row column second third = i)
    (hsecond : 1 < i.length → second' = second) (hthird : 2 < i.length → third' = third) :
    decodeFirstQuarter row column second' third' = i := by
  unfold decodeFirstQuarter at h ⊢
  split at h <;> subst h <;> grind [length]

theorem decodeLastQuarter_congr
    (h : decodeLastQuarter row column second third = some i)
    (hsecond : 1 < i.length → second' = second) (hthird : 2 < i.length → third' = third) :
    decodeLastQuarter row column second' third' = some i := by
  have hextended := length_decodeExtended second.toNat
  fun_cases decodeLastQuarter row column second third <;>
    simp only [decodeLastQuarter] at h ⊢ <;> grind [length]

theorem decodeLastQuarter_eq_none (h : decodeLastQuarter row column second third = none) :
    decodeLastQuarter row column second' third' = none := by
  fun_cases decodeLastQuarter row column second third <;>
    simp only [decodeLastQuarter] at h ⊢ <;> grind

/-- **Only as many bytes count as the instruction has.** -/
theorem decode_congr (h : decode opcode second third = some i)
    (hsecond : 1 < i.length → second' = second) (hthird : 2 < i.length → third' = third) :
    decode opcode second' third' = some i := by
  unfold decode at h ⊢
  dsimp only at h ⊢
  split at h
  · exact congrArg some (decodeFirstQuarter_congr (Option.some.inj h) hsecond hthird)
  · exact h
  · exact h
  · exact decodeLastQuarter_congr h hsecond hthird

/-- Whether a byte begins an instruction does not depend on those behind it. -/
theorem decode_eq_none (h : decode opcode second third = none) :
    decode opcode second' third' = none := by
  unfold decode at h ⊢
  dsimp only at h ⊢
  split at h
  · cases h
  · split at h <;> cases h
  · cases h
  · exact decodeLastQuarter_eq_none h

/-- The processor goes to sleep only for an instruction that is written so. -/
theorem runStateAfter_of_operation (i : Instruction) {style : OperandStyle}
    (hstop : Listing.operation (i.render style) ≠ "STOP")
    (hhalt : Listing.operation (i.render style) ≠ "HALT") (before : RunState) :
    i.runStateAfter before = before := by
  cases i with
  | stop padding => exact absurd (by simp [Listing.operation, render]) hstop
  | halt => exact absurd (by simp [Listing.operation, render]) hhalt
  | _ => rfl

end Instruction

/-! ## Lines that stay -/

namespace ListingLine

variable {β : Type} [Bus β] {bus bus' : β} {a : UInt16} {n : Nat}

@[simp] theorem address_read (bus : β) (a : UInt16) : (read bus a).address = a := by
  rw [read]
  split <;> rfl

theorem length_readMany (bus : β) (n : Nat) (a : UInt16) : (readMany bus n a).length = n := by
  induction n generalizing a with
  | zero => rfl
  | succ n ih => exact congrArg (· + 1) (ih _)

/-- **A line is listed as it was as long as its own bytes are there.** -/
theorem read_congr
    (h : ∀ k < (read bus a).length, Bus.read bus' (a + UInt16.ofNat k) =
      Bus.read bus (a + UInt16.ofNat k)) : read bus' a = read bus a := by
  cases hi : Instruction.fetch? bus a with
  | none =>
    have hone : (read bus a).length = 1 := by rw [read, hi]; rfl
    have hopcode : Bus.read bus' a = Bus.read bus a := by simpa using h 0 (by omega)
    have hi' : Instruction.fetch? bus' a = none := by
      rw [Instruction.fetch?, hopcode]
      exact Instruction.decode_eq_none hi
    rw [read, read, hi, hi', hopcode]
  | some i =>
    obtain ⟨hlength, -⟩ := read_of_fetch hi
    rw [hlength] at h
    have hopcode : Bus.read bus' a = Bus.read bus a := by
      simpa using h 0 i.length_range.1
    have hi' : Instruction.fetch? bus' a = some i := by
      rw [Instruction.fetch?, hopcode]
      exact Instruction.decode_congr hi (h 1) (h 2)
    have hbytes : (List.range i.length).map (fun k ↦ Bus.read bus' (a + UInt16.ofNat k)) =
        (List.range i.length).map fun k ↦ Bus.read bus (a + UInt16.ofNat k) :=
      List.map_congr_left fun k hk ↦ h k (List.mem_range.1 hk)
    rw [read, read, hi, hi']
    dsimp only
    rw [hbytes]

/-- The line lies behind the first page and below `0x8000`, with all of its bytes. -/
structure InCartridge (line : ListingLine) : Prop where
  le_address : 0x100 ≤ line.address.toNat
  end_le : line.address.toNat + line.length ≤ 0x8000

/-- The line is followed by the next one when it is carried out: it is no data and no branch, and
the processor does not go to sleep. -/
structure Straight (line : ListingLine) : Prop where
  notData : ∀ b, ¬line.IsData b
  goesOn : Listing.operation line.text ∉ "STOP" :: "HALT" :: Listing.branchNames

/-- A listing in the cartridge stays as long as the cartridge does. -/
theorem readMany_congr
    (hsame : ∀ b : UInt16, 0x100 ≤ b.toNat → b.toNat < 0x8000 → Bus.read bus' b = Bus.read bus b)
    (h : ∀ line ∈ readMany bus n a, line.InCartridge) :
    readMany bus' n a = readMany bus n a := by
  induction n generalizing a with
  | zero => rfl
  | succ n ih =>
    rw [readMany] at h
    obtain ⟨hline, hrest⟩ := List.forall_mem_cons.1 h
    have hread : read bus' a = read bus a := by
      obtain ⟨hlow, hhigh⟩ := hline
      rw [address_read] at hlow hhigh
      refine read_congr fun k hk ↦ ?_
      have hplace : (a + UInt16.ofNat k).toNat = a.toNat + k := by
        rw [UInt16.toNat_add, UInt16.toNat_ofNat']
        omega
      exact hsame _ (by omega) (by omega)
    rw [readMany, readMany, hread, ih hrest]

end ListingLine

/-! ## Steps -/

/-- **What the processor reads in the cartridge, behind the first page, no store changes.** -/
theorem SystemBus.read_replay_of_cartridge (bus : SystemBus) (stores : List (UInt16 × UInt8))
    {b : UInt16} (hlow : 0x100 ≤ b.toNat) (hhigh : b.toNat < 0x8000) :
    (Bus.replay bus stores).read b = bus.read b := by
  have hpage : ¬b < 0x100 := by
    rw [UInt16.lt_iff_toNat_lt]
    exact Nat.not_lt.2 hlow
  have hbelow : b < 0x8000 := UInt16.lt_iff_toNat_lt.2 hhigh
  have hread (bus : SystemBus) : bus.read b = bus.peek b := by
    rw [bus.read_of_lt hbelow]
    split
    · exact if_neg hpage
    · rfl
  rw [hread, hread, peek_replay_of_lt _ _ hbelow]

namespace Core

section AnyBus

variable {β : Type} [Bus β] {s : Core β}

/-- The core after some steps, whether they succeed or not. -/
def after (s : Core β) : Nat → Core β
  | 0 => s
  | n + 1 => s.step.state.after n

/-- **A straight line is carried out, and the next one follows.** -/
theorem step_of_straight (hr : s.cpu.runState = .running)
    (hno : ∀ source, s.nextAction ≠ .dispatch source)
    (h : (ListingLine.read s.bus s.regs.pc).Straight) :
    (∃ cycles, s.step.answer = .ok cycles) ∧ s.step.state.cpu.runState = .running ∧
      s.step.state.regs.pc =
        s.regs.pc + UInt16.ofNat (ListingLine.read s.bus s.regs.pc).length := by
  obtain ⟨hdata, hname⟩ := h
  cases hi : Instruction.fetch? s.bus s.regs.pc with
  | none => exact absurd ((ListingLine.read_of_fetch_none hi _).2 rfl) (hdata _)
  | some i =>
    have hnext := (nextAction_of_not_dispatch hr hno).trans (fetchAction_of_fetch hi)
    have hlisted := stepsAsListed_of_execute hnext hi
    rw [List.mem_cons, List.mem_cons, not_or, not_or] at hname
    obtain ⟨hstop, hhalt, hbranch⟩ := hname
    refine ⟨hlisted.succeeds hdata, ?_, hlisted.goes_on hdata fun h ↦ hbranch h.1⟩
    rw [(ListingLine.read_of_fetch hi).2] at hstop hhalt
    rw [step_execute_cpu hnext, settleEnable_runState]
    exact i.runStateAfter_of_operation hstop hhalt .running

end AnyBus

variable {s : Core SystemBus} {n : Nat}

/-- In a step the cartridge stays. -/
theorem read_step_of_cartridge (s : Core SystemBus) {b : UInt16} (hlow : 0x100 ≤ b.toNat)
    (hhigh : b.toNat < 0x8000) : s.step.state.bus.read b = s.bus.read b := by
  rw [step_bus]
  exact s.bus.read_replay_of_cartridge _ hlow hhigh

/-- Each step begins at its line and ends behind it. -/
theorem step_after_of_listed (hr : s.cpu.runState = .running)
    (hin : ∀ line ∈ ListingLine.readMany s.bus n s.regs.pc, line.InCartridge)
    (hstraight : ∀ line ∈ ListingLine.readMany s.bus n s.regs.pc, line.Straight)
    (hno : ∀ k < n, ∀ source, (s.after k).nextAction ≠ .dispatch source) {k : Nat}
    {line : ListingLine} (hline : (ListingLine.readMany s.bus n s.regs.pc)[k]? = some line) :
    (s.after k).regs.pc = line.address ∧ (∃ cycles, (s.after k).step.answer = .ok cycles) ∧
      (s.after (k + 1)).regs.pc = line.address + UInt16.ofNat line.length := by
  induction n generalizing s k with
  | zero => simp [ListingLine.readMany] at hline
  | succ n ih =>
    rw [ListingLine.readMany] at hin hstraight hline
    obtain ⟨-, hin⟩ := List.forall_mem_cons.1 hin
    obtain ⟨hfirst, hstraight⟩ := List.forall_mem_cons.1 hstraight
    obtain ⟨hok, hrunning, hpc⟩ := step_of_straight hr (hno 0 n.succ_pos) hfirst
    cases k with
    | zero =>
      obtain rfl := Option.some.inj hline
      rw [ListingLine.address_read]
      exact ⟨rfl, hok, hpc⟩
    | succ k =>
      -- the rest is listed after the step as it was before it
      rw [← hpc] at hin hstraight hline
      have hrest := ListingLine.readMany_congr (fun b ↦ s.read_step_of_cartridge) hin
      rw [← hrest] at hin hstraight hline
      exact ih hrunning hin hstraight (fun k hk ↦ hno (k + 1) (Nat.succ_lt_succ hk)) hline

/-- **A straight program in the cartridge runs as it is listed.**  If the lines from the program
counter on lie in the cartridge, behind the first page, and none of them is data, a branch or put to
sleep, then as long as the processor goes to no interrupt handler there is a step for each line: it
begins at the address of the line, succeeds, and ends behind the line, whatever is stored in the
meantime. -/
theorem runs_as_listed (hn : 0 < n) (hr : s.cpu.runState = .running)
    (hin : ∀ line ∈ ListingLine.readMany s.bus n s.regs.pc, line.InCartridge)
    (hstraight : ∀ line ∈ ListingLine.readMany s.bus n s.regs.pc, line.Straight)
    (hno : ∀ k < n, ∀ source, (s.after k).nextAction ≠ .dispatch source) :
    let lines := ListingLine.readMany s.bus n s.regs.pc
    lines.length = n ∧
      (∀ k line, lines[k]? = some line → (s.after k).regs.pc = line.address ∧
        ∃ cycles, (s.after k).step.answer = .ok cycles) ∧
      ∃ last, lines.getLast? = some last ∧
        (s.after n).regs.pc = last.address + UInt16.ofNat last.length := by
  intro lines
  have hlength : lines.length = n := ListingLine.length_readMany _ _ _
  refine ⟨hlength, fun k line hline ↦ ?_, ?_⟩
  · obtain ⟨hpc, hok, -⟩ := step_after_of_listed hr hin hstraight hno hline
    exact ⟨hpc, hok⟩
  · obtain ⟨last, hlast⟩ : ∃ last, lines[n - 1]? = some last :=
      ⟨_, List.getElem?_eq_getElem (by omega)⟩
    obtain ⟨-, -, hend⟩ := step_after_of_listed hr hin hstraight hno hlast
    rw [Nat.sub_add_cancel hn] at hend
    rw [← hlength, ← List.getLast?_eq_getElem?] at hlast
    exact ⟨last, hlast, hend⟩

/-! ## A program at the end of the cartridge -/

/-- The bytes of a store to video memory and of a `nop`, behind which the cartridge ends. -/
def lastBytes (a : UInt16) : UInt8 :=
  if a = 0x7FFC then 0xEA else if a = 0x7FFE then 0x80 else 0

/-- A processor in front of the two. -/
def beforeLastBytes : Core SystemBus where
  cpu := { regs := { pc := 0x7FFC, a := 0xD3 } }
  bus := { memory := .ofFn lastBytes, bootRom := none }

theorem read_beforeLastBytes {a : UInt16} (ha : a < 0x8000) :
    Bus.read beforeLastBytes.bus a = lastBytes a := by
  refine (SystemBus.read_of_lt _ ha).trans ?_
  exact Memory.read_ofFn lastBytes a

theorem fetch_beforeLastBytes :
    Instruction.fetch? beforeLastBytes.bus 0x7FFC = some (.storeAt 0x8000) ∧
      Instruction.fetch? beforeLastBytes.bus 0x7FFF = some .nop := by
  refine ⟨?_, ?_⟩
  · rw [Instruction.fetch?, read_beforeLastBytes (by decide), read_beforeLastBytes (by decide),
      read_beforeLastBytes (by decide)]
    rfl
  · rw [Instruction.fetch?, read_beforeLastBytes (by decide)]
    rfl

theorem readMany_beforeLastBytes :
    ListingLine.readMany beforeLastBytes.bus 2 0x7FFC =
      [.read beforeLastBytes.bus 0x7FFC, .read beforeLastBytes.bus 0x7FFF] := by
  have hlength : (ListingLine.read beforeLastBytes.bus 0x7FFC).length = 3 :=
    (ListingLine.read_of_fetch fetch_beforeLastBytes.1).1
  rw [ListingLine.readMany, hlength]
  rfl

/-- The program is straight although it changes the byte behind it, which is looked at when the
`nop` is listed. -/
theorem runs_as_listed_lastBytes :
    (ListingLine.readMany beforeLastBytes.bus 2 0x7FFC).map ListingLine.text =
        ["LD ($8000),A", "NOP"] ∧
      beforeLastBytes.step.state.bus.peek 0x8000 ≠ beforeLastBytes.bus.peek 0x8000 ∧
      (beforeLastBytes.after 1).regs.pc = 0x7FFF ∧ (beforeLastBytes.after 2).regs.pc = 0x8000 := by
  obtain ⟨hstore, hnop⟩ := fetch_beforeLastBytes
  obtain ⟨hlength₁, htext₁⟩ := ListingLine.read_of_fetch hstore
  obtain ⟨hlength₂, htext₂⟩ := ListingLine.read_of_fetch hnop
  have hno (s : Core SystemBus) (h : s.cpu.interruptsEnabled = false) (source : Interrupt) :
      s.nextAction ≠ .dispatch source := fun hd ↦ by
    rw [(nextAction_eq_dispatch_iff.1 hd).1] at h
    cases h
  have hnext : beforeLastBytes.nextAction = .execute (.storeAt 0x8000) :=
    (nextAction_of_not_dispatch rfl (hno _ rfl)).trans (fetchAction_of_fetch hstore)
  have hoff : (beforeLastBytes.after 1).cpu.interruptsEnabled = false := by
    rw [after, after, step_execute_cpu hnext]
    rfl
  have hbyte : beforeLastBytes.step.state.bus.peek 0x8000 = 0xD3 := by
    rw [step_of_execute hnext]
    exact Memory.read_write_self _ _ _
  have hbefore : beforeLastBytes.bus.peek 0x8000 = 0 := Memory.read_ofFn lastBytes 0x8000
  have htexts : (ListingLine.readMany beforeLastBytes.bus 2 0x7FFC).map ListingLine.text =
      ["LD ($8000),A", "NOP"] := by
    rw [readMany_beforeLastBytes, List.map_cons, List.map_cons, htext₁, htext₂]
    decide
  have hlines : ListingLine.readMany beforeLastBytes.bus 2 beforeLastBytes.regs.pc =
      [.read beforeLastBytes.bus 0x7FFC, .read beforeLastBytes.bus 0x7FFF] :=
    readMany_beforeLastBytes
  have hboth {P : ListingLine → Prop} (h₁ : P (.read beforeLastBytes.bus 0x7FFC))
      (h₂ : P (.read beforeLastBytes.bus 0x7FFF)) :
      ∀ line ∈ ListingLine.readMany beforeLastBytes.bus 2 beforeLastBytes.regs.pc, P line := by
    rw [hlines]
    simp [h₁, h₂]
  obtain ⟨-, hsteps, last, hlast, hend⟩ := runs_as_listed (s := beforeLastBytes) (n := 2)
    (by decide) rfl
    (hboth ⟨by simp, by simp [hlength₁, Instruction.length]⟩
      ⟨by simp, by simp [hlength₂, Instruction.length]⟩)
    (hboth ⟨ListingLine.not_isData_of_fetch hstore, by rw [htext₁]; decide⟩
      ⟨ListingLine.not_isData_of_fetch hnop, by rw [htext₂]; decide⟩)
    (fun k hk ↦ by
      obtain rfl | rfl : k = 0 ∨ k = 1 := by omega
      · exact hno _ rfl
      · exact hno _ hoff)
  rw [hlines] at hsteps
  rw [hlines, List.getLast?_cons_cons, List.getLast?_singleton] at hlast
  obtain rfl := Option.some.inj hlast
  obtain ⟨hsecond, -⟩ := hsteps 1 _ rfl
  rw [ListingLine.address_read] at hsecond
  refine ⟨htexts, by rw [hbyte, hbefore]; decide, hsecond, ?_⟩
  rw [hend, ListingLine.address_read, hlength₂]
  rfl

end Core
end Handheld
