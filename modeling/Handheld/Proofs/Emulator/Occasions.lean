import Handheld.Proofs.Emulator.Breaks

/-!
# Before a breakpoint

While execution runs freely, a step that leads to a breakpoint is the last of its tick.  So the
instruction at a breakpoint is not carried out, except by the first step of a tick: execution may
start there.

`Watched.RunsUpTo` follows the steps of a slice until it ends, and says in what order the observers
have been told of them: of each step, of the end of the boot ROM if it came in that step, and, if
the last step has led to a breakpoint, of that, once and as the last thing
(`Emulator.breakpoints_of_tick`).  What the observers are told is a list of `Occasion`s; what they
make of it is left open.
-/

set_option autoImplicit false

namespace Handheld

variable {σ : Type}

/-! ## What observers are told -/

/-- Something that observers are told of. -/
inductive Occasion where
  /-- A step has been made. -/
  | step (m : Machine)
  /-- The boot ROM has been switched off in it. -/
  | bootRomUnmapped (m : Machine)
  /-- It has led to a breakpoint. -/
  | breakpoint (m : Machine) (a : UInt16)

namespace Observer

/-- What an observer does on an occasion. -/
def hear (o : Observer σ) : Occasion → σ → σ
  | .step m => o.onStep m
  | .bootRomUnmapped m => o.onBootRomUnmapped m
  | .breakpoint m a => o.onBreakpoint m a

/-- The notes after some occasions, all observers having been told of each. -/
def tell (observers : List (Observer σ)) (occasions : List Occasion) (notes : σ) : σ :=
  occasions.foldl (fun notes x ↦ observers.foldl (fun notes o ↦ o.hear x notes) notes) notes

theorem tell_append (observers : List (Observer σ)) (before after : List Occasion) (notes : σ) :
    tell observers (before ++ after) notes = tell observers after (tell observers before notes) :=
  List.foldl_append

end Observer

namespace Machine

/-- What there is to tell of a step from `m` to `m'`, wherever it has led. -/
def stepOccasions (m m' : Machine) : List Occasion :=
  .step m' :: if m.bus.bootRomMapped && !m'.bus.bootRomMapped then [.bootRomUnmapped m'] else []

/-- What there is to tell of the next `k` steps, if none fails. -/
def occasions (m : Machine) : Nat → List Occasion
  | 0 => []
  | k + 1 => m.stepOccasions m.step.state ++ m.step.state.occasions k

/-- Breakpoints are not among it. -/
theorem breakpoint_not_mem_occasions (m m₁ : Machine) (a : UInt16) (k : Nat) :
    .breakpoint m₁ a ∉ m.occasions k := by
  induction k generalizing m with
  | zero => exact List.not_mem_nil
  | succ k ih =>
    rw [occasions, List.mem_append, not_or, stepOccasions]
    refine ⟨?_, ih _⟩
    split <;> simp

end Machine

/-! ## One step -/

namespace Watched

variable {observers : List (Observer σ)} {w w₁ w' : Watched σ}
  {cycles budget elapsed total k t : Nat}

/-- What there is to tell of a breakpoint: nothing unless execution waits. -/
def breakpointOccasions (w : Watched σ) : List Occasion :=
  if w.debugger.singleStep then [.breakpoint w.machine w.machine.cpu.regs.pc] else []

theorem breakpointOccasions_of_running (h : w.debugger.singleStep = false) :
    w.breakpointOccasions = [] := if_neg (Bool.eq_false_iff.1 h)

theorem notesAfter_eq (observers : List (Observer σ)) (m m' : Machine) (notes : σ) :
    notesAfter observers m.bus.bootRomMapped m' notes =
      Observer.tell observers (m.stepOccasions m') notes := by
  rw [notesAfter, Machine.stepOccasions]
  split <;> rfl

/-- After a step execution waits if it has led to a breakpoint, and that is what is told last. -/
theorem told_of_step_eq_ok (hrunning : w.debugger.singleStep = false)
    (hs : w.step observers = ⟨.ok cycles, w'⟩) :
    w'.debugger.singleStep = w.debugger.hasBreakpoint w'.machine.cpu.regs.pc ∧
      w'.notes = Observer.tell observers
        (w.machine.stepOccasions w'.machine ++ w'.breakpointOccasions) w.notes := by
  obtain ⟨machine, debugger, notes, journal⟩ := w
  rw [step] at hs
  rcases hm : machine.step with ⟨e | c, machine'⟩
  · simp [hm] at hs
  · simp only [hm, Outcome.mk.injEq, Except.ok.injEq] at hs
    obtain ⟨rfl, rfl⟩ := hs
    rw [Observer.tell_append, ← notesAfter_eq, checkBreakpoint]
    dsimp only
    split
    · rename_i hbreak
      exact ⟨hbreak.symm, rfl⟩
    · rename_i hbreak
      have hrunning : debugger.singleStep = false := hrunning
      refine ⟨hrunning.trans (Bool.eq_false_iff.2 hbreak).symm, ?_⟩
      rw [breakpointOccasions_of_running hrunning]
      rfl

/-! ## Slices -/

/-- While execution runs freely, `k` steps of together `t` cycles are made. -/
structure RunsUpTo (observers : List (Observer σ)) (w : Watched σ) (k t : Nat) (w' : Watched σ) :
    Prop where
  steps_eq : w.machine.steps k = ⟨.ok t, w'.machine⟩
  count_eq : w'.debugger.history.count = w.debugger.history.count + k
  breakpoints_eq : w'.debugger.breakpoints = w.debugger.breakpoints
  /-- No step but the first begins at a breakpoint. -/
  between : ∀ j, 0 < j → j < k → ∃ t₁ m₁, w.machine.steps j = ⟨.ok t₁, m₁⟩ ∧
    w.debugger.hasBreakpoint m₁.cpu.regs.pc = false
  /-- Execution waits afterwards if the last step, there being one, has led to a breakpoint. -/
  waits_iff : w'.debugger.singleStep = true ↔
    0 < k ∧ w.debugger.hasBreakpoint w'.machine.cpu.regs.pc = true
  /-- The observers have been told of the steps, and then of the breakpoint. -/
  notes_eq : w'.notes =
    Observer.tell observers (w.machine.occasions k ++ w'.breakpointOccasions) w.notes

/-- A slice in which no step is made. -/
theorem RunsUpTo.none (observers : List (Observer σ)) (hrunning : w.debugger.singleStep = false) :
    RunsUpTo observers w 0 0 w where
  steps_eq := rfl
  count_eq := rfl
  breakpoints_eq := rfl
  between _ hpos hlt := absurd hlt (Nat.not_lt.2 (Nat.le_of_lt hpos))
  waits_iff := by simp [hrunning]
  notes_eq := by
    rw [breakpointOccasions_of_running hrunning]
    rfl

/-- A slice in which one step is made. -/
theorem RunsUpTo.one (hrunning : w.debugger.singleStep = false)
    (hs : w.step observers = ⟨.ok cycles, w'⟩) : RunsUpTo observers w 1 cycles w' := by
  obtain ⟨hbreakpoints, hcount, -⟩ := debugger_of_step_eq_ok hs
  obtain ⟨hwaits, hnotes⟩ := told_of_step_eq_ok hrunning hs
  have hone : w.machine.occasions 1 = w.machine.stepOccasions w'.machine := by
    rw [Machine.occasions, Machine.occasions, machine_of_step_eq_ok hs, List.append_nil]
  refine ⟨steps_one_of_step_eq_ok hs, hcount, hbreakpoints, fun j hpos hlt ↦ by omega, ?_, ?_⟩
  · rw [hwaits]
    simp
  · rw [hone]
    exact hnotes

theorem steps_succ_of_step_eq_ok {m : Machine} (hs : w.step observers = ⟨.ok cycles, w₁⟩)
    (h : w₁.machine.steps k = ⟨.ok t, m⟩) : w.machine.steps (k + 1) = ⟨.ok (cycles + t), m⟩ := by
  rw [Nat.add_comm]
  exact Machine.steps_add_eq_ok.2 ⟨cycles, w₁.machine, t, steps_one_of_step_eq_ok hs, h, rfl⟩

/-- A step in front of a slice, after which execution goes on. -/
theorem RunsUpTo.step (hrunning : w.debugger.singleStep = false)
    (hs : w.step observers = ⟨.ok cycles, w₁⟩) (hgoes : w₁.debugger.singleStep = false)
    (h : RunsUpTo observers w₁ k t w') : RunsUpTo observers w (k + 1) (cycles + t) w' := by
  obtain ⟨hbreakpoints, hcount, -⟩ := debugger_of_step_eq_ok hs
  obtain ⟨hwaits, hnotes⟩ := told_of_step_eq_ok hrunning hs
  rw [hgoes] at hwaits
  rw [breakpointOccasions_of_running hgoes, List.append_nil] at hnotes
  have hsame (a : UInt16) : w₁.debugger.hasBreakpoint a = w.debugger.hasBreakpoint a := by
    rw [Debugger.hasBreakpoint, hbreakpoints]
    rfl
  refine ⟨steps_succ_of_step_eq_ok hs h.steps_eq, ?_, h.breakpoints_eq.trans hbreakpoints,
    fun j hpos hlt ↦ ?_, ?_, ?_⟩
  · have hrest := h.count_eq
    omega
  · obtain ⟨i, rfl⟩ := Nat.exists_eq_succ_of_ne_zero (Nat.ne_of_gt hpos)
    rcases Nat.eq_zero_or_pos i with rfl | hi
    · exact ⟨cycles, w₁.machine, steps_one_of_step_eq_ok hs, hwaits.symm⟩
    · obtain ⟨t₁, m₁, hsteps, hnot⟩ := h.between i hi (Nat.lt_of_succ_lt_succ hlt)
      exact ⟨_, m₁, steps_succ_of_step_eq_ok hs hsteps, hsame _ ▸ hnot⟩
  · rw [h.waits_iff, hsame]
    refine and_congr_left fun hbreak ↦ ⟨fun _ ↦ k.succ_pos, fun _ ↦ Nat.pos_of_ne_zero ?_⟩
    -- a slice that ends where it began is not at a breakpoint
    rintro rfl
    have hend : w₁.machine = w'.machine := congrArg Outcome.state h.steps_eq
    rw [← hend, ← hwaits] at hbreak
    cases hbreak
  · have hstate : w.machine.step.state = w₁.machine := by rw [machine_of_step_eq_ok hs]
    rw [h.notes_eq, hnotes, ← Observer.tell_append, Machine.occasions, hstate, List.append_assoc]

/-- **While execution runs freely, a slice goes on up to a breakpoint**, by induction along its
steps. -/
theorem runsUpTo_of_runSlice (hrunning : w.debugger.singleStep = false)
    (h : w.runSlice observers budget elapsed = ⟨.ok total, w'⟩) :
    ∃ k t, RunsUpTo observers w k t w' ∧ total = elapsed + t := by
  induction w, elapsed using runSlice.induct observers budget with
  | case1 w elapsed hgo e w₁ hs =>
    rw [runSlice_of_lt observers hgo.2 hgo.1, hs] at h
    cases h
  | case2 w elapsed hgo cycles w₁ hs ih =>
    rw [runSlice_of_lt observers hgo.2 hgo.1, hs, Outcome.andThen_ok] at h
    cases hgoes : w₁.debugger.singleStep with
    | true =>
      rw [runSlice, if_neg fun hgo₁ ↦ Bool.noConfusion (hgoes.symm.trans hgo₁.2)] at h
      cases h
      exact ⟨1, cycles, .one hrunning hs, rfl⟩
    | false =>
      obtain ⟨k, t, hruns, rfl⟩ := ih hgoes h
      exact ⟨k + 1, cycles + t, .step hrunning hs hgoes hruns, Nat.add_assoc elapsed cycles t⟩
  | case3 w elapsed hgo =>
    rw [runSlice, if_neg hgo] at h
    cases h
    exact ⟨0, 0, .none observers hrunning, rfl⟩

end Watched

/-! ## Ticks -/

namespace Emulator

variable {e e' : Emulator σ} {dt : Nat} {report : TickReport}

theorem pollInput_told (e : Emulator σ) :
    e.pollInput.notes = e.notes ∧ e.pollInput.observers = e.observers := by
  obtain ⟨watched, policy, observers, input, debt, meter⟩ := e
  cases input <;> exact ⟨rfl, rfl⟩

theorem runsUpTo_of_tickRunning (hrunning : e.debugger.singleStep = false)
    (h : e.tickRunning dt = ⟨.ok report, e'⟩) :
    ∃ k, Watched.RunsUpTo e.observers e.toWatched k report.cyclesRun e'.toWatched := by
  obtain ⟨watched, policy, observers, input, debt, meter⟩ := e
  rw [tickRunning] at h
  dsimp only at h
  rcases hs : (watched.noteAll (cutEvents policy dt)).runSlice observers (policy.budget dt) debt
    with ⟨e | total, w'⟩
  · simp [hs] at h
  · simp only [hs, Outcome.mk.injEq, Except.ok.injEq] at h
    obtain ⟨rfl, rfl⟩ := h
    have hrunning : (watched.noteAll (cutEvents policy dt)).debugger.singleStep = false := hrunning
    obtain ⟨k, t, hruns, rfl⟩ := Watched.runsUpTo_of_runSlice hrunning hs
    refine ⟨k, ?_⟩
    dsimp only
    rw [Nat.add_sub_cancel_left]
    exact ⟨hruns.steps_eq, hruns.count_eq, hruns.breakpoints_eq, hruns.between, hruns.waits_iff,
      hruns.notes_eq⟩

theorem runsUpTo_of_tick (hrunning : e.debugger.singleStep = false)
    (h : e.tick dt = ⟨.ok report, e'⟩) :
    ∃ k, Watched.RunsUpTo e.observers e.pollInput.toWatched k report.cyclesRun e'.toWatched := by
  have hpolled : e.pollInput.debugger.singleStep = false := by rw [pollInput_debugger, hrunning]
  rw [← (pollInput_told e).2]
  rw [tick_of_running hrunning] at h
  split at h
  · cases h
    exact ⟨0, .none _ hpolled⟩
  · exact runsUpTo_of_tickRunning hpolled h

/-- **Execution stops before a breakpoint.**  While it runs freely, a tick that succeeds makes some
steps, after the key events, and does not change which breakpoints there are.  None of these steps
but the first begins at a breakpoint.  Afterwards execution waits exactly if a step has been made
and the last one has led to a breakpoint.  The observers have been told of each step, in order, and
in addition, as the last thing and once, of the breakpoint at which execution waits, if it does. -/
theorem breakpoints_of_tick (hrunning : e.debugger.singleStep = false)
    (h : e.tick dt = ⟨.ok report, e'⟩) :
    ∃ k, e.stepsIn (.tick dt) = k ∧
      e.pollInput.machine.steps k = ⟨.ok report.cyclesRun, e'.machine⟩ ∧
      e'.debugger.breakpoints = e.debugger.breakpoints ∧
      (∀ j, 0 < j → j < k → ∃ t m, e.pollInput.machine.steps j = ⟨.ok t, m⟩ ∧
        e.debugger.hasBreakpoint m.cpu.regs.pc = false) ∧
      (e'.debugger.singleStep = true ↔
        0 < k ∧ e.debugger.hasBreakpoint e'.machine.cpu.regs.pc = true) ∧
      e'.notes =
        Observer.tell e.observers
          (e.pollInput.machine.occasions k ++
            if e'.debugger.singleStep then
              [.breakpoint e'.machine e'.machine.cpu.regs.pc]
            else [])
          e.notes ∧
      ∀ m a, .breakpoint m a ∉ e.pollInput.machine.occasions k := by
  obtain ⟨k, hruns⟩ := runsUpTo_of_tick hrunning h
  have hcount := hruns.count_eq
  have hbreakpoints := hruns.breakpoints_eq
  have hbetween := hruns.between
  have hwaits := hruns.waits_iff
  have hnotes := hruns.notes_eq
  rw [pollInput_debugger] at hcount hbreakpoints hbetween hwaits
  rw [(pollInput_told e).1] at hnotes
  have hstepsIn : e.stepsIn (.tick dt) = k := by
    rw [stepsIn, h]
    exact Nat.sub_eq_of_eq_add' hcount
  exact ⟨k, hstepsIn, hruns.steps_eq, hbreakpoints, hbetween, hwaits, hnotes,
    fun m a ↦ Machine.breakpoint_not_mem_occasions _ m a k⟩

/-! ## An observer that writes everything down -/

/-- It notes each occasion. -/
def recorder : Observer (List Occasion) where
  onStep m notes := notes ++ [.step m]
  onBootRomUnmapped m notes := notes ++ [.bootRomUnmapped m]
  onBreakpoint m a notes := notes ++ [.breakpoint m a]

theorem tell_recorder (occasions notes : List Occasion) :
    Observer.tell [recorder] occasions notes = notes ++ occasions := by
  induction occasions generalizing notes with
  | nil => exact (List.append_nil notes).symm
  | cons x occasions ih =>
    have hnext : Observer.tell [recorder] (x :: occasions) notes =
        Observer.tell [recorder] occasions (notes ++ [x]) := by
      cases x <;> rfl
    rw [hnext, ih, List.append_assoc]
    rfl

/-- A machine at rest by a slow clock, with a breakpoint one step ahead. -/
def breaking (bus : SystemBus) : Emulator (List Occasion) :=
  ⟨{ machine := .restingOn bus, debugger := (Debugger.addBreakpoint {} 0xC001).2, notes := [] },
    slowClock, [recorder], none, 0, {}⟩

/-- It makes one step in a tick of one millisecond. -/
theorem tick_breaking {bus : SystemBus} (h : bus.IsBlank) :
    ∃ report e', (breaking bus).tick 1 = ⟨.ok report, e'⟩ ∧ (breaking bus).stepsIn (.tick 1) = 1 ∧
      e'.machine.cpu = .startingAt 0xC001 ∧ (Machine.restingOn bus).step.state = e'.machine := by
  obtain ⟨m', hm, hcpu⟩ := Machine.step_restingOn h
  have hstep := Outcome.eq_ok_of_answer
    (((breaking bus).step_answer [recorder]).trans (congrArg Outcome.answer hm))
  have hmachine : m' = ((breaking bus).step [recorder]).state.machine := by
    have hsame := Watched.machine_of_step_eq_ok hstep
    exact congrArg Outcome.state (hm.symm.trans hsame)
  have hslice : (breaking bus).runSlice [recorder] 1 0 =
      ⟨.ok 4, ((breaking bus).step [recorder]).state⟩ := by
    rw [Watched.runSlice_of_lt [recorder] rfl (by decide), hstep, Outcome.andThen_ok]
    exact Watched.runSlice_of_not_lt [recorder] _ (by decide)
  have htick : (breaking bus).tick 1 = _ :=
    tick_of_slowClock {} rfl (by decide) (by decide) (by decide) hslice
  obtain ⟨-, hcount, -⟩ := Watched.debugger_of_step_eq_ok hstep
  refine ⟨_, _, htick, ?_, hmachine ▸ hcpu, ?_⟩
  · rw [stepsIn, htick]
    exact Nat.sub_eq_of_eq_add' hcount
  · rw [hm]
    exact hmachine

/-- A tick makes the step, and the breakpoint is told after it. -/
theorem breakpoints_of_tick_breaking :
    ∃ report e', (breaking .blank).debugger.singleStep = false ∧
      (breaking .blank).tick 1 = ⟨.ok report, e'⟩ ∧ e'.debugger.singleStep = true ∧
      e'.notes = [.step e'.machine, .breakpoint e'.machine 0xC001] := by
  obtain ⟨report, e', htick, hone, hcpu, hstate⟩ := tick_breaking SystemBus.isBlank_blank
  obtain ⟨k, hk, -, -, -, hwaits, hnotes, -⟩ := breakpoints_of_tick rfl htick
  obtain rfl : k = 1 := hk.symm.trans hone
  have hbreak : e'.debugger.singleStep = true := by
    refine hwaits.2 ⟨Nat.one_pos, ?_⟩
    rw [hcpu]
    rfl
  have htold : (Machine.restingOn .blank).occasions 1 = [.step e'.machine] := by
    have hunmapped : (Machine.restingOn .blank).bus.bootRomMapped = false := rfl
    rw [Machine.occasions, Machine.occasions, List.append_nil, hstate, Machine.stepOccasions,
      hunmapped]
    rfl
  refine ⟨report, e', rfl, htick, hbreak, ?_⟩
  have hnotes : e'.notes = Observer.tell [recorder]
      ((Machine.restingOn .blank).occasions 1 ++ if e'.debugger.singleStep then _ else []) [] :=
    hnotes
  rw [htold, if_pos hbreak, hcpu, tell_recorder] at hnotes
  exact hnotes

end Emulator
end Handheld
