import Handheld.Proofs.Bus.Ram
import Handheld.Proofs.Cpu.StraightLine
import Handheld.Proofs.Cpu.Stop
import Handheld.Proofs.Machine.Steps
import Mathlib.Logic.Function.Iterate

/-!
# A byte that means nothing

Eleven bytes begin no instruction (`Instruction.decode_eq_none_iff`).  A step fails on such a byte at
the program counter and for no other reason, if it comes to looking there: no interrupt is
dispatched, and the processor runs or wakes on the same step
(`Core.step_answer_eq_unknownOpcode_iff`).

The failure leaves everything as it was, except that a processor that was to wake has woken.  So the
next step finds what this one has found, and fails again.  The devices have no part in it, since they
follow a step that succeeds (`Machine.step_unknownOpcode`).
-/

set_option autoImplicit false

namespace Handheld

/-! ## The bytes that mean nothing -/

/-- **The undefined opcodes begin no instruction, and all others do.** -/
theorem Instruction.decode_eq_none_iff {opcode second third : UInt8} :
    decode opcode second third = none ↔ opcode ∈ undefinedOpcodes := by
  have hzero : ∀ opcode, (decode opcode 0 0).isNone = true ↔ opcode ∈ undefinedOpcodes := by
    decide +kernel
  rw [← hzero, Option.isNone_iff_eq_none]
  exact ⟨decode_eq_none, decode_eq_none⟩

namespace Core

variable {β : Type} [Bus β] {s : Core β} {opcode : UInt8} {e : MachineError}

theorem fetchAction_eq_reject_iff :
    s.fetchAction = .reject opcode ↔
      s.read s.regs.pc = opcode ∧ opcode ∈ Instruction.undefinedOpcodes := by
  have hnone : Instruction.fetch? s.bus s.regs.pc = none ↔
      s.read s.regs.pc ∈ Instruction.undefinedOpcodes := Instruction.decode_eq_none_iff
  cases hfetch : Instruction.fetch? s.bus s.regs.pc with
  | none =>
    have hmem := hnone.1 hfetch
    rw [fetchAction_of_fetch_none hfetch]
    simp only [Action.reject.injEq]
    exact ⟨fun h ↦ ⟨h, h ▸ hmem⟩, And.left⟩
  | some i =>
    rw [fetchAction_of_fetch hfetch]
    simp only [reduceCtorEq, false_iff, not_and]
    rintro rfl hmem
    rw [hnone.2 hmem] at hfetch
    cases hfetch

/-! ## The step that fails -/

/-- The next step looks at the byte at the program counter, if it does not go to a handler. -/
def LooksAtProgram (s : Core β) : Prop :=
  s.cpu.runState = .running ∨
    s.cpu.runState = .halted ∧ s.cpu.interruptsEnabled = false ∧ s.pending ≠ 0

theorem nextAction_ne_dispatch (h : ¬s.Interrupted) (source : Interrupt) :
    s.nextAction ≠ .dispatch source := by
  intro hnext
  obtain ⟨hon, hsource⟩ := nextAction_eq_dispatch_iff.1 hnext
  refine h ⟨hon, fun hp ↦ ?_⟩
  rw [first?_pending_eq_none_iff.2 hp] at hsource
  cases hsource

/-- A processor that has halted wakes for what is requested and enabled, and goes on. -/
theorem nextAction_of_halted (hr : s.cpu.runState = .halted) (h : ¬s.Interrupted) :
    s.nextAction = if s.pending = 0 then .idle else s.fetchAction := by
  by_cases hp : s.pending = 0
  · rw [if_pos hp, nextAction, first?_pending_eq_none_iff.2 hp, hr]
  · obtain ⟨source, hsource⟩ := Option.ne_none_iff_exists'.1 (mt first?_pending_eq_none_iff.1 hp)
    have hoff : s.cpu.interruptsEnabled = false :=
      Bool.eq_false_iff.2 fun hon ↦ h ⟨hon, hp⟩
    rw [if_neg hp, nextAction, hsource, hoff, hr]

/-- **A step looks at the program exactly when it finds the processor awake, or wakes it, and goes
to no handler.** -/
theorem nextAction_eq_reject_iff :
    s.nextAction = .reject opcode ↔
      ¬s.Interrupted ∧ s.LooksAtProgram ∧ s.fetchAction = .reject opcode := by
  by_cases h : s.Interrupted
  · obtain ⟨source, hsource, -⟩ := h.step_eq
    rw [nextAction_eq_dispatch_iff.2 ⟨h.1, hsource⟩]
    simp [h]
  · have hoff : s.pending ≠ 0 → s.cpu.interruptsEnabled = false := fun hp ↦
      Bool.eq_false_iff.2 fun hon ↦ h ⟨hon, hp⟩
    cases hr : s.cpu.runState with
    | running =>
      rw [nextAction_of_not_dispatch hr (nextAction_ne_dispatch h)]
      simp [h, LooksAtProgram, hr]
    | halted =>
      rw [nextAction_of_halted hr h]
      by_cases hp : s.pending = 0
      · simp [hp, LooksAtProgram, hr]
      · simp [h, hp, hoff hp, LooksAtProgram, hr]
    | stopped =>
      rw [nextAction_of_stopped hr h]
      rcases stoppedAction_cases s with hs | hs <;> simp [hs, LooksAtProgram, hr]

/-- **When a step of the processor fails, and how.** -/
theorem step_eq_error_iff {s' : Core β} :
    s.step = ⟨.error e, s'⟩ ↔
      ∃ opcode, s.nextAction = .reject opcode ∧ e = .unknownOpcode opcode s.regs.pc ∧
        s' = s.awake := by
  rw [step]
  cases s.nextAction with
  | reject opcode =>
    simp only [perform, Outcome.mk.injEq, Except.error.injEq, Action.reject.injEq,
      exists_eq_left']
    exact and_congr eq_comm eq_comm
  | _ => simp [perform]

/-- **The step that fails on a byte that means nothing.** -/
theorem step_answer_eq_unknownOpcode_iff {address : UInt16} :
    s.step.answer = .error (.unknownOpcode opcode address) ↔
      ¬s.Interrupted ∧ s.LooksAtProgram ∧ s.read s.regs.pc = opcode ∧
        opcode ∈ Instruction.undefinedOpcodes ∧ address = s.regs.pc := by
  constructor
  · intro h
    obtain ⟨opcode, hnext, he, -⟩ := step_eq_error_iff.1 (Outcome.eq_error_of_answer h)
    cases he
    obtain ⟨hno, hlooks, hfetch⟩ := nextAction_eq_reject_iff.1 hnext
    obtain ⟨hread, hmem⟩ := fetchAction_eq_reject_iff.1 hfetch
    exact ⟨hno, hlooks, hread, hmem, rfl⟩
  · rintro ⟨hno, hlooks, hread, hmem, rfl⟩
    have hfetch := fetchAction_eq_reject_iff.2 ⟨hread, hmem⟩
    have hnext := nextAction_eq_reject_iff.2 ⟨hno, hlooks, hfetch⟩
    rw [step_eq_error_iff.2 ⟨opcode, hnext, rfl, rfl⟩]

/-- The byte is still there when the processor has woken, and so is everything else that has been
looked at. -/
theorem nextAction_awake (h : s.nextAction = .reject opcode) :
    s.awake.nextAction = .reject opcode := by
  obtain ⟨hno, -, hfetch⟩ := nextAction_eq_reject_iff.1 h
  exact nextAction_eq_reject_iff.2 ⟨hno, Or.inl rfl, s.fetchAction_awake.trans hfetch⟩

/-- **A step that has failed fails again.** -/
theorem step_awake {s' : Core β} (h : s.step = ⟨.error e, s'⟩) :
    s'.step = ⟨.error e, s'⟩ := by
  obtain ⟨opcode, hnext, he, rfl⟩ := step_eq_error_iff.1 h
  exact step_eq_error_iff.2 ⟨opcode, nextAction_awake hnext, he, rfl⟩

end Core

/-! ## The machine -/

namespace Machine

variable {m : Machine} {e : MachineError}

/-- A failure of the processor is a failure of the machine, and the devices stay as they are. -/
theorem step_of_core_error {s : Core SystemBus} (h : m.core.step = ⟨.error e, s⟩) :
    m.step = ⟨.error e, { m with cpu := s.cpu, bus := s.bus }⟩ := by
  obtain ⟨cpu, bus, ppu, timer, header⟩ := m
  rw [core] at h
  rw [step]
  dsimp only
  rw [h]

/-- The machine after some steps, whether they succeed or not. -/
def afterSteps (m : Machine) (k : Nat) : Machine := (fun m ↦ m.step.state)^[k] m

/-- The machine that a failure of the processor leaves: it is what it was, and awake. -/
def stuck (m : Machine) : Machine := { m with cpu := { m.cpu with runState := .running } }

/-- What does not change in a step does not change any more. -/
theorem afterSteps_of_stays (h : m.step = ⟨.error e, m⟩) (k : Nat) : m.afterSteps k = m :=
  Function.iterate_fixed (congrArg Outcome.state h) k

/-- **A byte that means nothing is fatal, and changes nothing.**  Whatever the state of the machine,
a step of the processor fails on an opcode at an address exactly when no interrupt is dispatched, the
processor runs or wakes on this step from a halt, the program counter is at that address, and the
byte there is that opcode and one of those that begin no instruction.  Then the processor is awake
and everything else is as it was: the registers, the interrupt switch, the note of `ei`, the bus, the
picture unit and the timer.  Each further step fails in the same way and changes nothing. -/
theorem step_unknownOpcode (m : Machine) (opcode : UInt8) (address : UInt16) :
    (m.core.step.answer = .error (.unknownOpcode opcode address) ↔
        ¬m.core.Interrupted ∧
          (m.cpu.runState = .running ∨
            m.cpu.runState = .halted ∧ m.cpu.interruptsEnabled = false ∧ m.core.pending ≠ 0) ∧
          m.bus.read m.cpu.regs.pc = opcode ∧ opcode ∈ Instruction.undefinedOpcodes ∧
          address = m.cpu.regs.pc) ∧
      (m.core.step.answer = .error (.unknownOpcode opcode address) →
        m.core.step.state = m.stuck.core ∧
          m.step = ⟨.error (.unknownOpcode opcode address), m.stuck⟩ ∧
          ∀ k, m.stuck.afterSteps k = m.stuck ∧
            (m.stuck.afterSteps k).step = ⟨.error (.unknownOpcode opcode address), m.stuck⟩) := by
  refine ⟨Core.step_answer_eq_unknownOpcode_iff, fun h ↦ ?_⟩
  have hcore : m.core.step = ⟨.error (.unknownOpcode opcode address), m.core.awake⟩ := by
    have hstep := Outcome.eq_error_of_answer h
    obtain ⟨-, -, -, hstate⟩ := Core.step_eq_error_iff.1 hstep
    rwa [hstate] at hstep
  have hfirst : m.step = ⟨.error (.unknownOpcode opcode address), m.stuck⟩ :=
    step_of_core_error hcore
  have hagain : m.stuck.step = ⟨.error (.unknownOpcode opcode address), m.stuck⟩ :=
    step_of_core_error (Core.step_awake hcore)
  refine ⟨congrArg Outcome.state hcore, hfirst, fun k ↦ ?_⟩
  rw [afterSteps_of_stays hagain]
  exact ⟨rfl, hagain⟩

/-- A machine that wakes from a halt in front of such a byte, with interrupts not let in. -/
def wakingInFrontOf (opcode : UInt8) : Machine where
  cpu := { regs := { pc := 0xC000 }, runState := .halted, enablePending := true }
  bus := ((SystemBus.blank.poke 0xC000 opcode).set .interruptEnable 1).set .interruptFlag 1

/-- It has woken, the note of `ei` is still there, and a thousand steps do not get it any further. -/
theorem step_unknownOpcode_waking :
    let m := wakingInFrontOf 0xD3
    m.step = ⟨.error (.unknownOpcode 0xD3 0xC000), m.stuck⟩ ∧
      m.stuck.afterSteps 1000 = m.stuck ∧ m.stuck.cpu.enablePending = true := by
  intro m
  have hread : m.bus.read 0xC000 = 0xD3 := by
    rw [SystemBus.read_of_isRam _ (by decide)]
    simp [m, wakingInFrontOf, SystemBus.set, SystemBus.peek_poke, IoRegister.address,
      SystemBus.unecho]
  have hpending : m.core.pending = 1 := by
    rw [Core.pending_eq]
    show (SystemBus.set _ _ _).get _ &&& (SystemBus.set _ _ _).get _ &&& 0x1F = 1
    rw [SystemBus.get_set_self, SystemBus.get_set_of_ne _ _ (by decide), SystemBus.get_set_self]
    rfl
  obtain ⟨hiff, hfatal⟩ := step_unknownOpcode m 0xD3 0xC000
  have herror := hiff.2 ⟨fun hno ↦ absurd hno.1 (by decide),
    Or.inr ⟨rfl, rfl, by rw [hpending]; decide⟩, hread, by decide, rfl⟩
  obtain ⟨-, hstep, hagain⟩ := hfatal herror
  exact ⟨hstep, (hagain 1000).1, rfl⟩

end Machine
end Handheld
