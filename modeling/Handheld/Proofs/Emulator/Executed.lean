import Handheld.Proofs.Debugger.History
import Handheld.Proofs.Emulator.Course
import Handheld.Proofs.Machine.Idle

/-!
# The history is one of steps

The debugger records where each step of the machine began, if the step succeeds.  Most steps execute
the instruction that is there, but some do not: an interrupt may be dispatched, and a processor that
is asleep stays where it is.  These are recorded all the same, so after them the history is not that
of the instructions that have been executed (`Emulator.not_always_executed`).  The other way round,
an instruction is not recorded if the picture unit fails in its step.

A step is recorded as an instruction exactly if it executes one and succeeds, or does neither
(`Machine.recordedIn_step_eq_iff`).  The history shows the last few steps only, so it is enough if
the latest ones are of this kind (`Emulator.recent_of_run`).
-/

set_option autoImplicit false

namespace Handheld

variable {σ : Type}

/-- If there are enough elements in the second part of a list, the last ones are among them. -/
theorem rtake_append_of_le {α : Type} (before : List α) {rest : List α} {n : Nat}
    (h : n ≤ rest.length) : (before ++ rest).rtake n = rest.rtake n := by
  rw [List.rtake, List.length_append, Nat.add_sub_assoc h, List.drop_length_add_append, List.rtake]

namespace Machine

variable {m : Machine}

/-! ## What is executed -/

/-- Where the instruction is that a machine executes, if it executes one. -/
def executedIn (m : Machine) : Happening → List UInt16
  | .step =>
    match m.core.nextAction with
    | .execute _ => [m.cpu.regs.pc]
    | .dispatch _ | .idle | .leaveStop | .reject _ => []
  | .keys _ => []

/-- Where the instructions are that a machine executes while some things happen. -/
def executed (m : Machine) (run : List Happening) : List UInt16 := outputs after executedIn m run

theorem executed_append (m : Machine) (run run' : List Happening) :
    m.executed (run ++ run') = m.executed run ++ (run.foldl after m).executed run' :=
  outputs_append executedIn m run run'

/-- Of some happenings, each step that succeeds executes an instruction, and each that executes one
succeeds. -/
def RecordsExecuted (m : Machine) : List Happening → Prop
  | [] => True
  | .step :: run =>
    ((∃ c, m.step.answer = .ok c) ↔ ∃ i, m.core.nextAction = .execute i) ∧
      m.step.state.RecordsExecuted run
  | .keys event :: run => (m.applyKeys event).RecordsExecuted run

/-- **What is recorded of a step is what it executes**, or there is neither, exactly if it executes
an instruction and succeeds, or does neither. -/
theorem recordedIn_step_eq_iff : m.recordedIn .step = m.executedIn .step ↔
    ((∃ c, m.step.answer = .ok c) ↔ ∃ i, m.core.nextAction = .execute i) := by
  rw [recordedIn, executedIn]
  rcases m.step.answer with error | c <;> rcases m.core.nextAction with _ | _ | _ | i | _ <;> simp

/-- So it is of some happenings if it is of each step. -/
theorem recorded_eq_executed {run : List Happening} (h : m.RecordsExecuted run) :
    m.recorded run = m.executed run := by
  induction run generalizing m with
  | nil => rfl
  | cons x run ih =>
    cases x with
    | step => exact congrArg₂ (· ++ ·) (recordedIn_step_eq_iff.2 h.1) (ih h.2)
    | keys event => exact ih (m := m.applyKeys event) h

end Machine

namespace Emulator

variable {e : Emulator σ}

/-! ## What the history shows -/

/-- The history shows where the last eight steps that succeeded began. -/
theorem recent_afterAll (hnone : e.debugger.recent = []) (run : List HostAct) :
    (e.afterAll run).debugger.recent = (e.machine.recorded (e.happenings run)).rtake 8 := by
  have hnone : e.debugger.history.recent = [] := hnone
  rw [Debugger.recent, (reaches_afterAll e run).history_eq, History.recent_foldl_record, hnone]
  rfl

/-- **The history is one of steps, and of instructions where each step is one.**  Let a host do
anything with an emulator that has no history.  Then the history shows where the last eight steps
that succeeded began, or all of them if they are fewer.  These are the last eight instructions that
have been executed if from some moment on each step has executed an instruction exactly if it has
succeeded, and either there have been eight instructions since, or nothing has happened before. -/
theorem recent_of_run (hnone : e.debugger.recent = []) (run : List HostAct) :
    (e.afterAll run).debugger.recent = (e.machine.recorded (e.happenings run)).rtake 8 ∧
      ∀ before rest, e.happenings run = before ++ rest →
        (before.foldl Machine.after e.machine).RecordsExecuted rest →
        before = [] ∨ 8 ≤ ((before.foldl Machine.after e.machine).executed rest).length →
        (e.afterAll run).debugger.recent = (e.machine.executed (e.happenings run)).rtake 8 := by
  have hrecent := recent_afterAll hnone run
  refine ⟨hrecent, fun before rest hsplit hsame henough ↦ ?_⟩
  have hrest := Machine.recorded_eq_executed hsame
  rw [hrecent, hsplit, Machine.recorded_append, Machine.executed_append, hrest]
  rcases henough with rfl | hlength
  · rfl
  · rw [rtake_append_of_le _ hlength, rtake_append_of_le _ hlength]

/-! ## A machine that falls asleep -/

/-- An emulator that waits, with no history. -/
def waitingOn (m : Machine) : Emulator Unit :=
  ⟨{ machine := m, debugger := { singleStep := true }, notes := () }, slowClock, [], none, 0, {}⟩

end Emulator

namespace Machine

/-- The first step of the program executes its first instruction, and the second step none. -/
theorem steps_sleeping : ∃ m, assemble (some sleepProgram.bytes) none = .ok m ∧
    m.recorded [.step, .step] = [0, 1] ∧ m.executed [.step, .step] = [0] ∧
      m.executed [.step] = [0] ∧ m.RecordsExecuted [.step] := by
  obtain ⟨m, hm⟩ := exists_assemble_boot sleepProgram
  have h := InBootProgram.of_assemble hm
  have hhalt : Instruction.fetch? m.bus m.cpu.regs.pc = some .halt :=
    h.fetch_eq (by decide) (by
      simp only [sleepProgram, BootRom.read_ofFn]
      rfl)
  have hexecute := h.nextAction_eq hhalt
  obtain ⟨m₁, hs₁, hidle, hsettled, hdraw⟩ := idle_of_sleepProgram hm
  obtain ⟨total, m₂, hsteps⟩ := hidle.exists_steps_eq_ok hsettled hdraw 1
  obtain ⟨t, m₁', c, hnone, hs₂, -⟩ := steps_succ_eq_ok.1 hsteps
  obtain rfl : m₁ = m₁' := congrArg Outcome.state hnone
  have hpc : m₁.cpu.regs.pc = 1 := by
    obtain ⟨-, hcatch⟩ := step_eq_ok.1 hs₁
    obtain ⟨s, -, rfl⟩ := catchUp_eq_ok.1 hcatch
    show m.core.step.state.cpu.regs.pc = 1
    rw [Core.step_of_execute hexecute]
    refine (congrArg Registers.pc (Core.settleEnable_regs _ _)).trans ?_
    exact congrArg (· + 1) h.pc_eq
  have hstate : m.after .step = m₁ := congrArg Outcome.state hs₁
  refine ⟨m, hm, ?_, ?_, ?_, ?_, trivial⟩
  · rw [recorded, outputs, outputs, hstate, recordedIn, recordedIn, hs₁, hs₂, h.pc_eq, hpc]
    rfl
  · rw [executed, outputs, outputs, hstate, executedIn, executedIn, hexecute, hidle.nextAction_eq,
      h.pc_eq]
    rfl
  · rw [executed, outputs, executedIn, hexecute, h.pc_eq]
    rfl
  · rw [hs₁, hexecute]
    exact iff_of_true ⟨_, rfl⟩ ⟨_, rfl⟩

end Machine

namespace Emulator

/-- After one step the history is that of the instructions. -/
theorem recent_of_run_sleeping :
    ∃ m, Machine.assemble (some Machine.sleepProgram.bytes) none = .ok m ∧
      (waitingOn m).debugger.recent = [] ∧
      ((waitingOn m).afterAll (stepByStep 1)).debugger.recent = [0] ∧
      ((waitingOn m).afterAll (stepByStep 2)).debugger.recent = [0, 1] := by
  obtain ⟨m, hm, hrecorded, -, hexecuted, hone⟩ := Machine.steps_sleeping
  have hnone : (waitingOn m).debugger.recent = [] := rfl
  have hhappenings (k : Nat) : (waitingOn m).happenings (stepByStep k) =
      List.replicate k .step := happenings_stepByStep rfl rfl k
  refine ⟨m, hm, hnone, ?_, ?_⟩
  · obtain ⟨-, hinstructions⟩ := recent_of_run hnone (stepByStep 1)
    have hsame := hinstructions [] _ (hhappenings 1) hone (Or.inl rfl)
    rw [hsame, hhappenings]
    exact congrArg (List.rtake · 8) hexecuted
  · obtain ⟨hsteps, -⟩ := recent_of_run hnone (stepByStep 2)
    rw [hsteps, hhappenings]
    exact congrArg (List.rtake · 8) hrecorded

/-- **The history is not always one of instructions**: after two steps it has the address behind
the instruction that has put the processor to sleep, where nothing has been executed. -/
theorem not_always_executed :
    ¬∀ (e : Emulator Unit) (run : List HostAct), e.debugger.recent = [] →
      (e.afterAll run).debugger.recent = (e.machine.executed (e.happenings run)).rtake 8 := by
  intro h
  obtain ⟨m, -, hrecorded, hexecuted, -⟩ := Machine.steps_sleeping
  have hhappenings : (waitingOn m).happenings (stepByStep 2) = [.step, .step] :=
    happenings_stepByStep rfl rfl 2
  have hclaimed := h (waitingOn m) (stepByStep 2) rfl
  rw [recent_afterAll rfl, hhappenings] at hclaimed
  have hfalse : [0, 1].rtake 8 = ([0] : List UInt16).rtake 8 :=
    hrecorded ▸ hexecuted ▸ hclaimed
  revert hfalse
  decide

end Emulator
end Handheld
