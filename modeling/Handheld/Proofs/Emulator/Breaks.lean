import Handheld.Proofs.Emulator.Acts

/-!
# Slices that a breakpoint may end

A slice goes on until its budget is used up, or until the machine comes to a breakpoint.  In both
cases it is some steps of the machine, and the debugger's history tells how many
(`Watched.SliceEnds`).  Its last step begins within the budget; and it falls short of the budget only
if execution waits at its end, which it does at a breakpoint.

`Emulator.tick_eq_ok` says the same of a tick of an emulator to which no key events come.
-/

set_option autoImplicit false

namespace Handheld

variable {σ : Type}

namespace Watched

variable {observers : List (Observer σ)} {w w' : Watched σ} {cycles budget elapsed total : Nat}

/-- Execution waits at breakpoints only. -/
def WaitsAtBreakpoint (w : Watched σ) : Prop :=
  w.debugger.singleStep = true → w.debugger.hasBreakpoint w.machine.cpu.regs.pc = true

/-- A step that succeeds is added to the history, and execution waits after it if the machine has
come to a breakpoint. -/
theorem debugger_of_step_eq_ok (h : w.step observers = ⟨.ok cycles, w'⟩) :
    w'.debugger.breakpoints = w.debugger.breakpoints ∧
      w'.debugger.history.count = w.debugger.history.count + 1 ∧
      (w.debugger.singleStep = false → w'.WaitsAtBreakpoint) := by
  obtain ⟨machine, debugger, notes, journal⟩ := w
  rw [step] at h
  rcases hs : machine.step with ⟨e | c, machine'⟩
  · simp [hs] at h
  · simp only [hs, Outcome.mk.injEq, Except.ok.injEq] at h
    obtain ⟨rfl, rfl⟩ := h
    rw [checkBreakpoint]
    dsimp only
    split
    · rename_i hbreak
      exact ⟨rfl, rfl, fun _ _ ↦ hbreak⟩
    · refine ⟨rfl, rfl, fun hrunning hwaits ↦ ?_⟩
      cases hrunning.symm.trans hwaits

theorem steps_one_of_step_eq_ok (h : w.step observers = ⟨.ok cycles, w'⟩) :
    w.machine.steps 1 = ⟨.ok cycles, w'.machine⟩ :=
  Machine.steps_succ_eq_ok.2
    ⟨0, w.machine, cycles, rfl, machine_of_step_eq_ok h, (Nat.zero_add _).symm⟩

/-- A slice that began when `elapsed` cycles had been used ends when `total` have. -/
structure SliceEnds (budget elapsed : Nat) (w : Watched σ) (total : Nat) (w' : Watched σ) :
    Prop where
  /-- It is some steps of the machine, as many as the history has grown by. -/
  steps : ∃ k t, w.machine.steps k = ⟨.ok t, w'.machine⟩ ∧ total = elapsed + t ∧
    w'.debugger.history.count = w.debugger.history.count + k
  breakpoints_eq : w'.debugger.breakpoints = w.debugger.breakpoints
  total_lt : total < budget + 24
  le_total : w'.debugger.singleStep = false → budget ≤ total
  waits : w'.WaitsAtBreakpoint

/-- A slice in which there is nothing left to do. -/
theorem sliceEnds_self (hlt : elapsed < budget + 24)
    (hdone : ¬(elapsed < budget ∧ w.debugger.singleStep = false)) (hw : w.WaitsAtBreakpoint) :
    SliceEnds budget elapsed w elapsed w where
  steps := ⟨0, 0, rfl, rfl, rfl⟩
  breakpoints_eq := rfl
  total_lt := hlt
  le_total hrunning := Nat.le_of_not_lt fun h ↦ hdone ⟨h, hrunning⟩
  waits := hw

/-- A step in front of a slice. -/
theorem SliceEnds.of_step {w₁ : Watched σ} (hs : w.step observers = ⟨.ok cycles, w₁⟩)
    (h : SliceEnds budget (elapsed + cycles) w₁ total w') : SliceEnds budget elapsed w total w' := by
  obtain ⟨hbreakpoints, hcount, -⟩ := debugger_of_step_eq_ok hs
  obtain ⟨⟨k, t, hsteps, htotal, hhistory⟩, hsame, hlt, hle, hwaits⟩ := h
  have hfirst := steps_one_of_step_eq_ok hs
  refine ⟨⟨1 + k, cycles + t, ?_, by omega, by omega⟩, hsame.trans hbreakpoints, hlt, hle, hwaits⟩
  exact Machine.steps_add_eq_ok.2 ⟨cycles, w₁.machine, t, hfirst, hsteps, rfl⟩

/-- **What a slice is when it ends**, by induction along its steps. -/
theorem sliceEnds_of_runSlice (hw : w.WaitsAtBreakpoint) (hlt : elapsed < budget + 24)
    (h : w.runSlice observers budget elapsed = ⟨.ok total, w'⟩) :
    SliceEnds budget elapsed w total w' := by
  induction w, elapsed using runSlice.induct observers budget with
  | case1 w elapsed hgo e w₁ hs =>
    rw [runSlice_of_lt observers hgo.2 hgo.1, hs] at h
    cases h
  | case2 w elapsed hgo cycles w₁ hs ih =>
    rw [runSlice_of_lt observers hgo.2 hgo.1, hs, Outcome.andThen_ok] at h
    obtain ⟨-, -, hwaits⟩ := debugger_of_step_eq_ok hs
    obtain ⟨-, -, hle⟩ := Machine.step_range (machine_of_step_eq_ok hs)
    exact .of_step hs (ih (hwaits hgo.2) (by omega) h)
  | case3 w elapsed hgo =>
    rw [runSlice, if_neg hgo] at h
    cases h
    exact sliceEnds_self hlt hgo hw

theorem machine_of_step_eq_error {error : MachineError} (h : w.step observers = ⟨.error error, w'⟩) :
    w.machine.step.answer = .error error := by
  obtain ⟨machine, debugger, notes, journal⟩ := w
  rw [step] at h
  rcases hs : machine.step with ⟨e | c, machine'⟩
  · simp only [hs, Outcome.mk.injEq, Except.error.injEq] at h
    rw [h.1]
  · simp [hs] at h

/-- **A slice fails only if the machine does**, by induction along its steps. -/
theorem steps_of_runSlice_eq_error {error : MachineError}
    (h : w.runSlice observers budget elapsed = ⟨.error error, w'⟩) :
    ∃ k, (w.machine.steps k).answer = .error error := by
  induction w, elapsed using runSlice.induct observers budget with
  | case1 w elapsed hgo e w₁ hs =>
    rw [runSlice_of_lt observers hgo.2 hgo.1, hs] at h
    cases h
    exact ⟨1, Machine.answer_steps_one (machine_of_step_eq_error hs)⟩
  | case2 w elapsed hgo cycles w₁ hs ih =>
    rw [runSlice_of_lt observers hgo.2 hgo.1, hs, Outcome.andThen_ok] at h
    obtain ⟨k, hk⟩ := ih h
    exact ⟨1 + k, Machine.answer_steps_add (steps_one_of_step_eq_ok hs) hk⟩
  | case3 w elapsed hgo =>
    rw [runSlice, if_neg hgo] at h
    cases h

end Watched

namespace Emulator

variable {e e' : Emulator σ} {dt : Nat} {report : TickReport}

/-- Without key events a tick while execution runs freely is a slice and nothing else. -/
theorem tick_eq_tickRunning (hinput : e.input = none) (hrunning : e.debugger.singleStep = false)
    (hdt : dt ≠ 0) : e.tick dt = e.tickRunning dt := by
  obtain ⟨watched, policy, observers, input, debt, meter⟩ := e
  obtain rfl : input = none := hinput
  rw [tick_of_running hrunning, if_neg hdt]
  rfl

/-- **A tick to which no key events come** is a slice that begins with the debt, and what the slice
has used beyond its budget is the debt that it leaves. -/
theorem tick_eq_ok (hinput : e.input = none) (hrunning : e.debugger.singleStep = false)
    (hdt : dt ≠ 0) (hdebt : e.cycleDebt < 24) (h : e.tick dt = ⟨.ok report, e'⟩) :
    ∃ total,
      Watched.SliceEnds (e.policy.budget dt) e.cycleDebt e.toWatched total e'.toWatched ∧
        e'.cycleDebt = total - e.policy.budget dt ∧ e'.policy = e.policy ∧ e'.input = none := by
  rw [tick_eq_tickRunning hinput hrunning hdt] at h
  obtain ⟨watched, policy, observers, input, debt, meter⟩ := e
  rw [tickRunning] at h
  dsimp only at h
  rcases hs : (watched.noteAll (cutEvents policy dt)).runSlice observers (policy.budget dt) debt
    with ⟨e | total, w'⟩
  · simp [hs] at h
  · simp only [hs, Outcome.mk.injEq, Except.ok.injEq] at h
    obtain ⟨-, rfl⟩ := h
    have hwaits : (watched.noteAll (cutEvents policy dt)).WaitsAtBreakpoint := fun hwaits ↦
      Bool.noConfusion (hrunning.symm.trans hwaits)
    have hdebt : debt < policy.budget dt + 24 := Nat.lt_of_lt_of_le hdebt (Nat.le_add_left _ _)
    have hends := Watched.sliceEnds_of_runSlice hwaits hdebt hs
    exact ⟨total, ⟨hends.steps, hends.breakpoints_eq, hends.total_lt, hends.le_total, hends.waits⟩,
      rfl, rfl, hinput⟩

/-- A tick fails only if the machine does. -/
theorem steps_of_tick_eq_error {error : MachineError} (hinput : e.input = none)
    (hrunning : e.debugger.singleStep = false) (hdt : dt ≠ 0)
    (h : e.tick dt = ⟨.error error, e'⟩) : ∃ k, (e.machine.steps k).answer = .error error := by
  rw [tick_eq_tickRunning hinput hrunning hdt] at h
  obtain ⟨watched, policy, observers, input, debt, meter⟩ := e
  rw [tickRunning] at h
  dsimp only at h
  rcases hs : (watched.noteAll (cutEvents policy dt)).runSlice observers (policy.budget dt) debt
    with ⟨e | total, w'⟩
  · simp only [hs, Outcome.mk.injEq, Except.error.injEq] at h
    obtain ⟨rfl, -⟩ := h
    have hfails := Watched.steps_of_runSlice_eq_error hs
    exact hfails
  · simp [hs] at h

/-- A tick that is given nothing, when nothing has been run ahead, leaves the machine and the
debugger as they are. -/
theorem tick_of_no_budget (hinput : e.input = none) (hrunning : e.debugger.singleStep = false)
    (hdt : dt ≠ 0) (hdebt : e.cycleDebt = 0) (hbudget : e.policy.budget dt = 0) :
    ∃ report journal meter, e.tick dt =
      ⟨.ok report, { e with toWatched := { e.toWatched with journal }, meter }⟩ := by
  rw [tick_eq_tickRunning hinput hrunning hdt]
  obtain ⟨watched, policy, observers, input, debt, meter⟩ := e
  obtain rfl : debt = 0 := hdebt
  have hbudget : policy.budget dt = 0 := hbudget
  rw [tickRunning]
  simp only [hbudget, Watched.runSlice_of_not_lt _ _ (Nat.lt_irrefl 0)]
  exact ⟨_, _, _, rfl⟩

end Emulator
end Handheld
