import Handheld.Proofs.Cpu.Reentry
import Handheld.Proofs.Machine.UndefinedOpcode

/-!
# Interrupts are let in one instruction late

`ei` does not let interrupts in.  It leaves a note, and the instruction after it acts on the note: so
whatever is requested and enabled, one more instruction is carried out before a handler is entered.
That instruction may be any.  `di` takes the note away; every other lets interrupts in when it is
over, a second `ei`, a `reti` and a `halt` included.  A byte that means nothing is no instruction,
and leaves the note where it is.

`Cpu.Noted` is the processor between the two, and `Core.ActsOnNote` its next step.
`Core.ei_of_run` follows the three steps from the `ei` to the first that can be a dispatch.  As for a
stop, the bus may become any other between two steps.
-/

set_option autoImplicit false

namespace Handheld

/-- An `ei` has been carried out and nothing since: interrupts are still off, and a note says that
they are to be let in. -/
structure Cpu.Noted (cpu : Cpu) : Prop where
  running : cpu.runState = .running
  off : cpu.interruptsEnabled = false
  noted : cpu.enablePending = true

namespace Core

variable {β : Type} {s : Core β}

theorem awake_of_running (h : s.cpu.runState = .running) : s.awake = s := by
  rw [awake, ← h]

variable [Bus β]

/-- A processor that runs, with interrupts off and no note, is in front of an `ei`. -/
structure AtEi (s : Core β) : Prop where
  running : s.cpu.runState = .running
  closed : s.cpu.Closed
  opcode : s.read s.regs.pc = 0xFB

/-! ## The step that leaves the note -/

theorem AtEi.nextAction_eq (h : s.AtEi) : s.nextAction = .execute .ei := by
  have hfetch : Instruction.fetch? s.bus s.regs.pc = some .ei := by
    have hopcode : Bus.read s.bus s.regs.pc = 0xFB := h.opcode
    rw [Instruction.fetch?, hopcode]
    rfl
  rw [nextAction_of_disabled h.closed.1 h.running, fetchAction_of_fetch hfetch]

/-- The note is all that an `ei` leaves. -/
theorem AtEi.step_eq (h : s.AtEi) :
    s.step =
      ⟨.ok 4, { s with
        cpu := { s.cpu with
          regs := { s.regs with pc := s.regs.pc + 1 }
          enablePending := true } }⟩ := by
  rw [step_of_execute h.nextAction_eq, run, settleEnable, h.closed.2, behind,
    awake_of_running h.running]
  rfl

/-- In particular it does not let interrupts in. -/
theorem AtEi.noted_step (h : s.AtEi) : s.step.state.cpu.Noted := by
  rw [h.step_eq]
  exact ⟨h.running, h.closed.1, rfl⟩

/-! ## The step that acts on it -/

/-- How a processor takes its next step when there is a note to act on. -/
structure ActsOnNote (s : Core β) : Prop where
  /-- It goes to no handler, whatever is requested. -/
  no_dispatch : ∀ source, s.nextAction ≠ .dispatch source
  /-- It carries out the instruction at the program counter.  Then the note is gone, and interrupts
  are let in unless that was `di`. -/
  executes : ∀ i, Instruction.fetch? s.bus s.regs.pc = some i →
    s.nextAction = .execute i ∧ (∃ cycles, s.step.answer = .ok cycles) ∧
      s.step.state.cpu.enablePending = false ∧
      (s.step.state.cpu.interruptsEnabled = true ↔ i ≠ .di)
  /-- If there is none it fails, and leaves everything as it was. -/
  rejects : Instruction.fetch? s.bus s.regs.pc = none →
    s.read s.regs.pc ∈ Instruction.undefinedOpcodes ∧
      s.step = ⟨.error (.unknownOpcode (s.read s.regs.pc) s.regs.pc), s⟩

/-- After an instruction with a note before it, interrupts are let in unless it was `di`. -/
theorem enabled_step_iff {i : Instruction} (h : s.nextAction = .execute i)
    (hnoted : s.cpu.enablePending = true) :
    s.step.state.cpu.interruptsEnabled = true ↔ i ≠ .di := by
  refine ⟨?_, (step_execute_pending h hnoted).2⟩
  rintro hon rfl
  rw [(closed_step_of_di h).1] at hon
  cases hon

/-- **A note is acted on in the next step**, if there is an instruction to be carried out. -/
theorem actsOnNote_of_noted (h : s.cpu.Noted) : s.ActsOnNote := by
  have hnext : s.nextAction = s.fetchAction := nextAction_of_disabled h.off h.running
  refine ⟨not_dispatch h.off, fun i hi ↦ ?_, fun hnone ↦ ?_⟩
  · have hexecute : s.nextAction = .execute i := hnext.trans (fetchAction_of_fetch hi)
    refine ⟨hexecute, ⟨_, congrArg Outcome.answer (step_of_execute hexecute)⟩,
      (step_execute_pending hexecute h.noted).1, enabled_step_iff hexecute h.noted⟩
  · have hmem : s.read s.regs.pc ∈ Instruction.undefinedOpcodes :=
      Instruction.decode_eq_none_iff.1 hnone
    have hreject : s.nextAction = .reject (s.read s.regs.pc) :=
      hnext.trans (fetchAction_eq_reject_iff.2 ⟨rfl, hmem⟩)
    exact ⟨hmem, step_eq_error_iff.2 ⟨_, hreject, rfl, (awake_of_running h.running).symm⟩⟩

/-- With interrupts let in, a step is a dispatch exactly when one is requested and enabled. -/
theorem dispatches_iff (hon : s.cpu.interruptsEnabled = true) :
    (∃ source, s.nextAction = .dispatch source) ↔ s.pending ≠ 0 := by
  rw [← not_iff_not, not_exists, not_not, ← first?_pending_eq_none_iff]
  simp [nextAction_eq_dispatch_iff, hon, Option.eq_none_iff_forall_ne_some]

/-! ## Both -/

/-- **What an `ei` does, and when.**  A processor that runs, with interrupts off and no note, is in
front of an `ei`.  Its step leaves a note and nothing else, so interrupts are off after it.  The next
step is no dispatch.  If there is an instruction at the program counter, it is carried out, the note
is gone after it, and interrupts are let in unless it was `di`; if there is none, the step fails and
the note stays.  And after any instruction but `di`, the step that follows is a dispatch exactly when
an interrupt is requested and enabled by then. -/
theorem ei_of_run {run : Nat → Core β} (hnext : ∀ n, (run (n + 1)).cpu = (run n).step.state.cpu)
    {n : Nat} (h : (run n).AtEi) :
    (run n).step =
        ⟨.ok 4, { run n with
          cpu := { (run n).cpu with
            regs := { (run n).regs with pc := (run n).regs.pc + 1 }
            enablePending := true } }⟩ ∧
      (run (n + 1)).cpu.Noted ∧ (run (n + 1)).ActsOnNote ∧
      ∀ i, Instruction.fetch? (run (n + 1)).bus (run (n + 1)).regs.pc = some i → i ≠ .di →
        ((∃ source, (run (n + 2)).nextAction = .dispatch source) ↔ (run (n + 2)).pending ≠ 0) := by
  have hnoted : (run (n + 1)).cpu.Noted := hnext n ▸ h.noted_step
  have hacts := actsOnNote_of_noted hnoted
  refine ⟨h.step_eq, hnoted, hacts, fun i hi hdi ↦ dispatches_iff ?_⟩
  obtain ⟨-, -, -, hon⟩ := hacts.executes i hi
  rw [hnext (n + 1)]
  exact hon.2 hdi

/-- The processor as the boot program leaves it, before `ei` and `halt`, with an interrupt requested
and enabled from the beginning. -/
def eiThenHalt : Nat → Core (UInt16 → UInt8)
  | 0 =>
    { cpu := .postBoot
      bus := fun a ↦
        if a = 0x100 then 0xFB else if a = 0x101 then 0x76
        else if a = interruptFlagAddress ∨ a = interruptEnableAddress then 1 else 0 }
  | n + 1 => (eiThenHalt n).step.state

/-- The interrupt waits until the `halt` has been carried out, and then ends it at once. -/
theorem ei_of_run_halt :
    (eiThenHalt 0).AtEi ∧ (eiThenHalt 0).pending = 1 ∧
      (eiThenHalt 1).nextAction = .execute .halt ∧ (eiThenHalt 2).cpu.runState = .halted ∧
      (eiThenHalt 2).cpu.interruptsEnabled = true ∧
      ∃ source, (eiThenHalt 2).nextAction = .dispatch source := by
  have h : (eiThenHalt 0).AtEi := ⟨rfl, ⟨rfl, rfl⟩, rfl⟩
  obtain ⟨-, -, hacts, hdispatch⟩ := ei_of_run (fun _ ↦ rfl) h
  obtain ⟨hhalt, -, -, hon⟩ := hacts.executes .halt rfl
  exact ⟨h, rfl, hhalt, rfl, hon.2 nofun, (hdispatch .halt rfl nofun).2 (by decide)⟩

end Core
end Handheld
