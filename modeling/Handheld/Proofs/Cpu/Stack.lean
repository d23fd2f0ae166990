import Handheld.Proofs.Bus.Ram
import Handheld.Proofs.Cpu.Flags

/-!
# What goes on the stack comes off it

A word is pushed high byte first, downwards, and read back low byte first, upwards.  Where the two
bytes are plain memory, what is read back is the word that was pushed (`Core.top_push`).  That is all
there is to it on flat memory.  On the bus of the handheld an address may lead to a byte that has
another address too, and the two places of a word could have been the same byte; they never are,
since neighbours do not share one, at the borders of the echo no more than elsewhere
(`RamBus.home_succ_ne`).

`Core.Pushed` is what a `push`, a call and a restart leave alike: the word, and where the program
goes on.  From there a `pop` or a `ret` takes the word off again, so a value comes back to a register
pair, and a call to the instruction behind it (`Core.stack_round_trip`).
-/

set_option autoImplicit false

namespace Handheld

/-! ## Words from the stack -/

namespace Word

/-- The last four bits of a word are those of its low byte. -/
theorem ofBytes_and_low (w : UInt16) : ofBytes (hi w) (lo w &&& 0xF0) = w &&& 0xFFF0 := by
  have hlt := w.toNat_lt
  have hdiv : (w.toNat &&& 0xFFF0) / 256 = w.toNat / 256 := by
    rw [Nat.and_div_two_pow (n := 8)]
    exact Nat.and_two_pow_sub_one_of_lt_two_pow (n := 8) (by omega)
  have hmod : (w.toNat &&& 0xFFF0) % 256 = w.toNat % 256 &&& 0xF0 :=
    Nat.and_mod_two_pow (n := 8)
  apply UInt16.toNat_inj.1
  rw [toNat_ofBytes, toNat_hi, UInt8.toNat_and, toNat_lo, UInt16.toNat_and]
  simp only [UInt8.reduceToNat, UInt16.reduceToNat]
  rw [← hdiv, ← hmod, Nat.div_add_mod]

end Word

namespace Registers

/-- A pair has the value that it was given, but for the lower half of F, which is always zero. -/
theorem getStacked_setStacked (r : Registers) (dst : StackOperand) (w : UInt16) :
    (r.setStacked dst w).getStacked dst = if dst = .af then w &&& 0xFFF0 else w := by
  cases dst with
  | bc => exact r.bc_setBC w
  | de => exact r.de_setDE w
  | hl => exact r.hl_setHL w
  | af =>
    show Word.ofBytes (Word.hi w) (Flags.ofByte (Word.lo w)).toByte = _
    rw [Flags.toByte_ofByte, Word.ofBytes_and_low]
    rfl

end Registers

namespace Instruction

/-- Where a call or a restart goes, if it is taken. -/
def callee? : Instruction → Option UInt16
  | call _ a => some a
  | restart slot => some (UInt16.ofNat (8 * slot.val))
  | _ => none

/-- A call pushes the address behind it and goes on at its target. -/
theorem execute_of_callee {β : Type} [Bus β] {s : Core β} {i : Instruction} {a : UInt16}
    (hi : i.callee? = some a) (htaken : i.isTaken s.regs.flags = true) :
    i.execute s = (s.push s.regs.pc).mapRegs fun r ↦ { r with pc := a } := by
  cases i with
  | call c b =>
    cases hi
    rw [execute, if_pos htaken]
  | restart slot =>
    cases hi
    rfl
  | _ => cases hi

end Instruction

namespace Core

variable {β : Type} [Bus β] {s t : Core β}

/-- There is plain memory below the top of the stack, enough for one word. -/
structure StackRoom (s : Core β) : Prop where
  high : IsRam (s.regs.sp - 1)
  low : IsRam (s.regs.sp - 2)

section Push

variable [RamBus β]

open RamBus (home)

/-- What is read when a word has been pushed. -/
theorem read_push (h : s.StackRoom) (w b : UInt16) :
    (s.push w).read b =
      if home β b = home β (s.regs.sp - 2) then Word.lo w
      else if home β b = home β (s.regs.sp - 1) then Word.hi w else s.read b := by
  show Bus.read (Bus.write (Bus.write s.bus _ _) _ _) b = _
  rw [RamBus.read_write _ _ _ h.low, RamBus.read_write _ _ _ h.high]
  rfl

/-- **The word on top is the one that was pushed.** -/
theorem top_push (h : s.StackRoom) (w : UInt16) : (s.push w).top = w := by
  have hsp : s.regs.sp - 2 + 1 = s.regs.sp - 1 := by grind
  have hlow : (s.push w).read (s.regs.sp - 2) = Word.lo w := by
    rw [read_push h, if_pos rfl]
  have hhigh : (s.push w).read (s.regs.sp - 1) = Word.hi w := by
    rw [read_push h, if_neg, if_pos rfl]
    rw [← hsp]
    exact RamBus.home_succ_ne _
  show Word.ofBytes ((s.push w).read (s.regs.sp - 2 + 1)) ((s.push w).read (s.regs.sp - 2)) = _
  rw [hsp, hlow, hhigh, Word.ofBytes_hi_lo]

end Push

/-! ## Two steps -/

/-- `t` is `s` with a word pushed, about to go on at `next`. -/
structure Pushed (s : Core β) (w next : UInt16) (t : Core β) : Prop where
  regs_eq : t.regs = { s.regs with sp := s.regs.sp - 2, pc := next }
  bus_eq : t.bus = (s.push w).bus
  running : t.cpu.runState = .running

omit [Bus β] in
theorem getStacked_behind (s : Core β) (i : Instruction) (src : StackOperand) :
    (s.behind i).regs.getStacked src = s.regs.getStacked src := by
  cases src <;> rfl

theorem pushed_push (s : Core β) (src : StackOperand) :
    s.Pushed (s.regs.getStacked src) (s.regs.pc + 1) (s.run (.push src)) := by
  refine ⟨regs_run s _, ?_, runState_run s _⟩
  rw [← getStacked_behind s (.push src)]
  rfl

theorem pushed_call {i : Instruction} {a : UInt16} (hi : i.callee? = some a)
    (htaken : i.isTaken s.regs.flags = true) :
    s.Pushed (s.regs.pc + UInt16.ofNat i.length) a (s.run i) := by
  have hexecute := Instruction.execute_of_callee (s := s.behind i) hi htaken
  refine ⟨(regs_run s i).trans ?_, ?_, (runState_run s i).trans ?_⟩
  · rw [hexecute]
    rfl
  · show (i.execute (s.behind i)).bus = _
    rw [hexecute]
    rfl
  · rw [hexecute]
    rfl

namespace Pushed

variable {w next : UInt16}

theorem top_eq [RamBus β] (h : s.Pushed w next t) (hroom : s.StackRoom) : t.top = w := by
  rw [← top_push hroom w, top, top, h.bus_eq, h.regs_eq]
  rfl

/-- An instruction of one byte stands where nothing of the word is kept. -/
theorem fetch_of_read [RamBus β] (h : s.Pushed w next t) (hroom : s.StackRoom) {i : Instruction}
    {a : UInt16} (hi : ∀ second third, Instruction.decode (s.read a) second third = some i)
    (hlow : RamBus.home β a ≠ RamBus.home β (s.regs.sp - 2))
    (hhigh : RamBus.home β a ≠ RamBus.home β (s.regs.sp - 1)) :
    Instruction.fetch? t.bus a = some i := by
  have hread : t.read a = s.read a := by
    rw [read, h.bus_eq]
    refine (read_push hroom w a).trans ?_
    rw [if_neg hlow, if_neg hhigh]
  show Instruction.decode (t.read a) _ _ = _
  rw [hread, hi]

theorem step_of_fetch (h : s.Pushed w next t) {i : Instruction}
    (hquiet : ∀ source, t.nextAction ≠ .dispatch source)
    (hi : Instruction.fetch? t.bus next = some i) :
    t.step = ⟨.ok (i.cycles (i.isTaken t.regs.flags)), t.run i⟩ :=
  Core.step_of_fetch h.running hquiet (by rw [h.regs_eq]; exact hi)

/-- A `pop` gives the word to its pair. -/
theorem regs_pop [RamBus β] (h : s.Pushed w next t) (hroom : s.StackRoom) (dst : StackOperand) :
    (t.run (.pop dst)).regs = { s.regs.setStacked dst w with pc := next + 1 } := by
  have hsp : s.regs.sp - 2 + 2 = s.regs.sp := by grind
  have htop : (t.behind (.pop dst)).top = w := h.top_eq hroom
  have hbehind : (t.behind (.pop dst)).drop.regs = { s.regs with pc := next + 1 } := by
    show { t.regs with sp := t.regs.sp + 2, pc := t.regs.pc + 1 } = _
    rw [h.regs_eq]
    dsimp only
    rw [hsp]
  rw [regs_run]
  show (t.behind (.pop dst)).drop.regs.setStacked dst (t.behind (.pop dst)).top = _
  rw [htop, hbehind]
  cases dst <;> rfl

/-- A `ret` goes on at the word. -/
theorem regs_ret [RamBus β] (h : s.Pushed w next t) (hroom : s.StackRoom) :
    (t.run (.ret none)).regs = { s.regs with pc := w } := by
  have hsp : s.regs.sp - 2 + 2 = s.regs.sp := by grind
  have htop : (t.behind (.ret none)).top = w := h.top_eq hroom
  rw [regs_run]
  show { t.regs with sp := t.regs.sp + 2, pc := (t.behind (.ret none)).top } = _
  rw [htop, h.regs_eq]
  dsimp only
  rw [hsp]

end Pushed

/-- **What goes on the stack comes off it.**  The processor runs, serves no interrupt, and has plain
memory for one word on its stack.  When a `push` is followed by a `pop`, the pair of the `pop` gets
the value of the pair that was pushed, less the lower half of F, which is always zero, and the other
registers are as they were.  When a call that is taken, or a restart, leads to a `ret`, the program
goes on behind the call with all registers as they were.  Neither step fails.

The second instruction is what is found once the word has been pushed. -/
theorem stack_round_trip {s : Core SystemBus} (hrunning : s.cpu.runState = .running)
    (hroom : s.StackRoom) (hquiet : ∀ source, s.nextAction ≠ .dispatch source) :
    (∀ src, Instruction.fetch? s.bus s.regs.pc = some (.push src) →
      ∃ t, s.step = ⟨.ok 16, t⟩ ∧
        ∀ dst, (∀ source, t.nextAction ≠ .dispatch source) →
          Instruction.fetch? t.bus (s.regs.pc + 1) = some (.pop dst) →
          ∃ u, t.step = ⟨.ok 12, u⟩ ∧
            u.regs.getStacked dst =
              (if dst = .af then s.regs.getStacked src &&& 0xFFF0 else s.regs.getStacked src) ∧
            u.regs.sp = s.regs.sp ∧
            u.regs = { s.regs.setStacked dst (s.regs.getStacked src) with pc := s.regs.pc + 2 }) ∧
      ∀ i a, Instruction.fetch? s.bus s.regs.pc = some i → i.callee? = some a →
        i.isTaken s.regs.flags = true →
        ∃ t, s.step = ⟨.ok (i.cycles true), t⟩ ∧
          ((∀ source, t.nextAction ≠ .dispatch source) →
            Instruction.fetch? t.bus a = some (.ret none) →
            ∃ u, t.step = ⟨.ok 16, u⟩ ∧
              u.regs = { s.regs with pc := s.regs.pc + UInt16.ofNat i.length }) := by
  refine ⟨fun src hpush ↦ ?_, fun i a hcall hcallee htaken ↦ ?_⟩
  · have hpushed := s.pushed_push src
    refine ⟨_, step_of_fetch hrunning hquiet hpush, fun dst hquiet' hpop ↦ ?_⟩
    have hregs := hpushed.regs_pop hroom dst
    have hpc : s.regs.pc + 1 + 1 = s.regs.pc + 2 := by grind
    rw [hpc] at hregs
    refine ⟨_, hpushed.step_of_fetch hquiet' hpop, ?_, ?_, hregs⟩
    · rw [hregs, ← Registers.getStacked_setStacked s.regs]
      cases dst <;> rfl
    · rw [hregs]
      cases dst <;> rfl
  · have hpushed := pushed_call hcallee htaken
    refine ⟨s.run i, ?_, fun hquiet' hret ↦ ?_⟩
    · rw [step_of_fetch hrunning hquiet hcall, htaken]
    · exact ⟨_, hpushed.step_of_fetch hquiet' hret, hpushed.regs_ret hroom⟩

/-! ## A word across the border of the echo -/

/-- A processor at a program in work RAM, with one byte of the next word on its stack at the end of
work RAM and the other at the beginning of its echo. -/
def atBorder (bus : SystemBus) : Core SystemBus where
  cpu := { regs := { a := 0x12, flags := { z := true }, sp := 0xE001, pc := 0xD000 } }
  bus

theorem stackRoom_atBorder (bus : SystemBus) : (atBorder bus).StackRoom where
  high := show IsRam (0xE001 - 1) by decide
  low := show IsRam (0xE001 - 2) by decide

theorem read_atBorder (bus : SystemBus) (a : UInt16) : (atBorder bus).read a = bus.read a := rfl

/-- An instruction of one byte that stands elsewhere is still there when a word has been pushed. -/
theorem fetch_pushed_atBorder {bus : SystemBus} {t : Core SystemBus} {w next a : UInt16}
    {i : Instruction} (h : (atBorder bus).Pushed w next t)
    (hi : ∀ second third, Instruction.decode (bus.read a) second third = some i)
    (hlow : SystemBus.unecho a ≠ 0xDFFF) (hhigh : SystemBus.unecho a ≠ 0xC000) :
    Instruction.fetch? t.bus a = some i := by
  refine h.fetch_of_read (stackRoom_atBorder bus) (by rw [read_atBorder]; exact hi) ?_ ?_
  · show SystemBus.unecho a ≠ SystemBus.unecho (0xE001 - 2)
    rwa [show SystemBus.unecho (0xE001 - 2) = 0xDFFF by decide]
  · show SystemBus.unecho a ≠ SystemBus.unecho (0xE001 - 1)
    rwa [show SystemBus.unecho (0xE001 - 1) = 0xC000 by decide]

/-- A program that pushes AF and pops BC. -/
def pushProgram : SystemBus := (SystemBus.blank.poke 0xD000 0xF5).poke 0xD001 0xC1

/-- A program that restarts at `0x38`, with a `ret` there. -/
def restartProgram : SystemBus := (SystemBus.blank.poke 0xD000 0xFF).poke 0x38 0xC9

theorem read_pushProgram : pushProgram.read 0xD000 = 0xF5 ∧ pushProgram.read 0xD001 = 0xC1 := by
  rw [pushProgram.read_of_isRam (by decide), pushProgram.read_of_isRam (by decide)]
  simp [pushProgram, SystemBus.peek_poke, SystemBus.unecho]

theorem read_restartProgram :
    restartProgram.read 0xD000 = 0xFF ∧ restartProgram.read 0x38 = 0xC9 := by
  have hpeek : restartProgram.peek 0xD000 = 0xFF ∧ restartProgram.peek 0x38 = 0xC9 := by
    simp [restartProgram, SystemBus.peek_poke]
  rw [restartProgram.read_of_isRam (by decide), restartProgram.read_of_lt (by decide)]
  exact hpeek

/-- AF is pushed and popped to BC; and a restart goes to a `ret` in the cartridge and comes back. -/
theorem stack_round_trip_border :
    (∃ t u, (atBorder pushProgram).step = ⟨.ok 16, t⟩ ∧ t.step = ⟨.ok 12, u⟩ ∧
      u.regs.bc = 0x1280 ∧ u.regs.sp = 0xE001) ∧
      ∃ t u, (atBorder restartProgram).step = ⟨.ok 16, t⟩ ∧ t.regs.pc = 0x38 ∧
        t.step = ⟨.ok 16, u⟩ ∧ u.regs.pc = 0xD001 ∧ u.regs.sp = 0xE001 := by
  refine ⟨?_, ?_⟩
  · obtain ⟨hpushByte, hpopByte⟩ := read_pushProgram
    have hpush : Instruction.fetch? pushProgram 0xD000 = some (.push .af) := by
      show Instruction.decode (pushProgram.read 0xD000) _ _ = _
      rw [hpushByte]
      rfl
    obtain ⟨t, ht, hpop⟩ := (stack_round_trip (s := atBorder pushProgram) rfl
      (stackRoom_atBorder _) (not_dispatch rfl)).1 .af hpush
    have hrun : t = (atBorder pushProgram).run (.push .af) :=
      congrArg Outcome.state (ht.symm.trans (step_of_fetch rfl (not_dispatch rfl) hpush))
    have hfetch : Instruction.fetch? t.bus 0xD001 = some (.pop .bc) := by
      rw [hrun]
      refine fetch_pushed_atBorder (pushed_push _ .af) (fun _ _ ↦ ?_) (by decide) (by decide)
      rw [hpopByte]
      rfl
    obtain ⟨u, hu, hbc, hsp, -⟩ := hpop .bc (by rw [hrun]; exact not_dispatch rfl) hfetch
    refine ⟨t, u, ht, hu, hbc.trans ?_, hsp⟩
    show Word.ofBytes 0x12 (Flags.toByte { z := true }) = 0x1280
    decide
  · obtain ⟨hrestartByte, hretByte⟩ := read_restartProgram
    have hrestart : Instruction.fetch? restartProgram 0xD000 = some (.restart 7) := by
      show Instruction.decode (restartProgram.read 0xD000) _ _ = _
      rw [hrestartByte]
      rfl
    obtain ⟨t, ht, hret⟩ := (stack_round_trip (s := atBorder restartProgram) rfl
      (stackRoom_atBorder _) (not_dispatch rfl)).2 _ 0x38 hrestart (by decide) rfl
    have hrun : t = (atBorder restartProgram).run (.restart 7) :=
      congrArg Outcome.state (ht.symm.trans (step_of_fetch rfl (not_dispatch rfl) hrestart))
    have hpushed : (atBorder restartProgram).Pushed (0xD000 + UInt16.ofNat 1) 0x38 t := by
      rw [hrun]
      exact pushed_call (i := .restart 7) (by decide) rfl
    have hfetch : Instruction.fetch? t.bus 0x38 = some (.ret none) := by
      refine fetch_pushed_atBorder hpushed (fun _ _ ↦ ?_) (by decide) (by decide)
      rw [hretByte]
      rfl
    obtain ⟨u, hu, hregs⟩ := hret (by rw [hrun]; exact not_dispatch rfl) hfetch
    refine ⟨t, u, ht, by rw [hpushed.regs_eq], hu, ?_, by rw [hregs]; rfl⟩
    rw [hregs]
    show 0xD000 + UInt16.ofNat 1 = 0xD001
    decide

end Core
end Handheld
