import Handheld.Proofs.Emulator.Occasions
import Handheld.Proofs.Machine.Requests

/-!
# What a host does, and what comes of it

A host lets an emulator tick, calls its debugger, and pushes key events for it to a queue; a
`HostAct` is one of these.  Whatever it does, two kinds of things happen to the machine: key events
and steps.  `Emulator.happenings` lists them in order, for any number of acts.

Everything else that an emulator keeps of its past is a function of that list: the machine itself,
the history of the debugger, and the notes of the observers.  `Watched.Goes` says how, and is a
relation between two moments so that it can be put together from parts: a step, a batch of key
events, a slice, a tick.  A step that fails changes the machine, but neither the history nor the
notes have anything of it.

What is collected along a run, be it one of a machine or of an emulator, has the form of `outputs`.
-/

set_option autoImplicit false

namespace Handheld

variable {σ : Type}

/-- What a host does with an emulator. -/
inductive HostAct where
  /-- It lets time pass, or calls the debugger. -/
  | act (a : Act)
  /-- It adds a key event to the queue. -/
  | push (event : InputEvent)

/-! ## What comes of a run -/

section

variable {S X α β : Type} {next : S → X → S}

/-- What comes out of a run, if it is known what comes out of each of its parts. -/
def outputs (next : S → X → S) (out : S → X → List α) (s : S) : List X → List α
  | [] => []
  | x :: run => out s x ++ outputs next out (next s x) run

theorem outputs_append (out : S → X → List α) (s : S) (run run' : List X) :
    outputs next out s (run ++ run') =
      outputs next out s run ++ outputs next out (run.foldl next s) run' := by
  induction run generalizing s with
  | nil => rfl
  | cons x run ih =>
    rw [List.cons_append, outputs, ih, outputs, List.append_assoc]
    rfl

/-- What is picked out of it is what is picked out of each part. -/
theorem filterMap_outputs (out : S → X → List α) (pick : α → Option β) (s : S) (run : List X) :
    (outputs next out s run).filterMap pick =
      outputs next (fun s x ↦ (out s x).filterMap pick) s run := by
  induction run generalizing s with
  | nil => rfl
  | cons x run ih => rw [outputs, List.filterMap_append, ih, outputs]

end

namespace Machine

/-- What is added to the history: where a step began, if it succeeds. -/
def recordedIn (m : Machine) : Happening → List UInt16
  | .step =>
    match m.step.answer with
    | .ok _ => [m.cpu.regs.pc]
    | .error _ => []
  | .keys _ => []

/-- What is added to the history while some things happen. -/
def recorded (m : Machine) (run : List Happening) : List UInt16 := outputs after recordedIn m run

/-- What observers are told, if there are some breakpoints: of a step that succeeds, and of the
breakpoint to which it has led. -/
def toldIn (t : Breakpoints) (m : Machine) : Happening → List Occasion
  | .step =>
    match m.step with
    | ⟨.ok _, m'⟩ =>
      m.stepOccasions m' ++
        if t.contains m'.cpu.regs.pc then [.breakpoint m' m'.cpu.regs.pc] else []
    | ⟨.error _, _⟩ => []
  | .keys _ => []

/-- What observers are told while some things happen. -/
def told (t : Breakpoints) (m : Machine) (run : List Happening) : List Occasion :=
  outputs after (toldIn t) m run

theorem told_cons (t : Breakpoints) (m : Machine) (x : Happening) (run : List Happening) :
    m.told t (x :: run) = m.toldIn t x ++ (m.after x).told t run := rfl

theorem recorded_append (m : Machine) (run run' : List Happening) :
    m.recorded (run ++ run') = m.recorded run ++ (run.foldl after m).recorded run' :=
  outputs_append recordedIn m run run'

theorem told_append (t : Breakpoints) (m : Machine) (run run' : List Happening) :
    m.told t (run ++ run') = m.told t run ++ (run.foldl after m).told t run' :=
  outputs_append (toldIn t) m run run'

end Machine

namespace Watched

variable {observers : List (Observer σ)} {w w' w'' : Watched σ}
  {run run' : List Machine.Happening}

/-- From `w` to `w'` some things have happened to the machine, and the history and the observers'
notes show it. -/
structure Goes (observers : List (Observer σ)) (run : List Machine.Happening) (w w' : Watched σ) :
    Prop where
  machine_eq : w'.machine = run.foldl Machine.after w.machine
  history_eq : w'.debugger.history =
    (w.machine.recorded run).foldl History.record w.debugger.history
  breakpoints_eq : w'.debugger.breakpoints = w.debugger.breakpoints
  notes_eq : w'.notes =
    Observer.tell observers (w.machine.told w.debugger.breakpoints run) w.notes

theorem Goes.refl (observers : List (Observer σ)) (w : Watched σ) : Goes observers [] w w :=
  ⟨rfl, rfl, rfl, rfl⟩

theorem Goes.trans (h : Goes observers run w w') (h' : Goes observers run' w' w'') :
    Goes observers (run ++ run') w w'' where
  machine_eq := by rw [h'.machine_eq, h.machine_eq, List.foldl_append]
  history_eq := by
    rw [h'.history_eq, h.history_eq, h.machine_eq, Machine.recorded_append, List.foldl_append]
  breakpoints_eq := h'.breakpoints_eq.trans h.breakpoints_eq
  notes_eq := by
    rw [h'.notes_eq, h.notes_eq, h.machine_eq, h.breakpoints_eq, Machine.told_append,
      Observer.tell_append]

/-- Key events change the machine only. -/
theorem goes_keys (observers : List (Observer σ)) (w : Watched σ) (events : List InputEvent) :
    Goes observers (events.map .keys) w (w.applyKeys events) := by
  induction events generalizing w with
  | nil => exact .refl observers w
  | cons event events ih =>
    have hfirst : Goes observers [.keys event] w (w.applyKeys [event]) := ⟨rfl, rfl, rfl, rfl⟩
    exact hfirst.trans (ih (w.applyKeys [event]))

/-- **A step is recorded and told**, if it succeeds. -/
theorem goes_step (observers : List (Observer σ)) (w : Watched σ) :
    Goes observers [.step] w (w.step observers).state := by
  obtain ⟨machine, debugger, notes, journal⟩ := w
  rw [step]
  rcases hs : machine.step with ⟨e | c, machine'⟩
  · have hrecorded : machine.recorded [.step] = [] := by
      simp only [Machine.recorded, outputs, Machine.recordedIn, hs, List.append_nil]
    have htold (t : Breakpoints) : machine.told t [.step] = [] := by
      simp only [Machine.told, outputs, Machine.toldIn, hs, List.append_nil]
    refine ⟨(congrArg Outcome.state hs).symm, ?_, rfl, ?_⟩
    · rw [hrecorded]
      rfl
    · rw [htold]
      rfl
  · have hrecorded : machine.recorded [.step] = [machine.cpu.regs.pc] := by
      simp only [Machine.recorded, outputs, Machine.recordedIn, hs, List.append_nil]
    have htold (t : Breakpoints) : machine.told t [.step] = machine.stepOccasions machine' ++
        if t.contains machine'.cpu.regs.pc then [.breakpoint machine' machine'.cpu.regs.pc]
        else [] := by
      simp only [Machine.told, outputs, Machine.toldIn, hs, List.append_nil]
    have hstate : machine' = machine.step.state := (congrArg Outcome.state hs).symm
    dsimp only
    rw [checkBreakpoint]
    dsimp only
    split
    · rename_i hbreak
      have hbreak : debugger.breakpoints.contains machine'.cpu.regs.pc = true := hbreak
      refine ⟨hstate, ?_, rfl, ?_⟩
      · rw [hrecorded]
        rfl
      · rw [htold, if_pos hbreak, Observer.tell_append, ← notesAfter_eq]
        rfl
    · rename_i hbreak
      have hbreak : ¬debugger.breakpoints.contains machine'.cpu.regs.pc = true := hbreak
      refine ⟨hstate, ?_, rfl, ?_⟩
      · rw [hrecorded]
        rfl
      · rw [htold, if_neg hbreak, List.append_nil, ← notesAfter_eq]

/-- **A slice is some steps**, by induction along them. -/
theorem goes_runSlice (observers : List (Observer σ)) (budget : Nat) (w : Watched σ)
    (elapsed : Nat) :
    ∃ k, Goes observers (List.replicate k .step) w (w.runSlice observers budget elapsed).state ∧
      Makes k w (w.runSlice observers budget elapsed).state
        (w.runSlice observers budget elapsed).failures := by
  induction w, elapsed using runSlice.induct observers budget with
  | case1 w elapsed h e w' hs =>
    have hgoes := goes_step observers w
    have hmakes := makes_step observers w
    rw [hs] at hgoes hmakes
    rw [runSlice_of_lt observers h.2 h.1, hs, Outcome.andThen_error]
    exact ⟨1, hgoes, hmakes⟩
  | case2 w elapsed h cycles w' hs ih =>
    have hgoes := goes_step observers w
    have hmakes := makes_step observers w
    rw [hs] at hgoes hmakes
    obtain ⟨k, hgoes', hmakes'⟩ := ih
    rw [runSlice_of_lt observers h.2 h.1, hs, Outcome.andThen_ok]
    exact ⟨k + 1, hgoes.trans hgoes', hmakes.trans hmakes'⟩
  | case3 w elapsed h =>
    rw [runSlice, if_neg h]
    exact ⟨0, .refl observers w, .zero w⟩

end Watched

namespace Emulator

/-! ## Ticks -/

/-- The key events that wait in the queue. -/
def waiting (e : Emulator σ) : List InputEvent :=
  match e.input with
  | some queue => queue.toList
  | none => []

theorem pollInput_toWatched (e : Emulator σ) :
    e.pollInput.toWatched = e.toWatched.applyKeys e.waiting := by
  obtain ⟨watched, policy, observers, input, debt, meter⟩ := e
  cases input <;> rfl

theorem pollInput_input (e : Emulator σ) : e.pollInput.input = e.input.map fun _ ↦ {} := by
  obtain ⟨watched, policy, observers, input, debt, meter⟩ := e
  cases input <;> rfl

theorem tickWaiting_kept (e : Emulator σ) :
    e.tickWaiting.state.observers = e.observers ∧ e.tickWaiting.state.input = e.input := by
  cases h : e.debugger.stepRequested with
  | false =>
    rw [tickWaiting_of_not_requested h]
    exact ⟨rfl, rfl⟩
  | true =>
    obtain ⟨⟨machine, ⟨breakpoints, singleStep, requested, history⟩, notes, journal⟩, policy,
      observers, input, debt, meter⟩ := e
    cases h
    rw [tickWaiting]
    simp only [Debugger.takeRequest, if_true]
    split <;> exact ⟨rfl, rfl⟩

theorem tickRunning_kept (e : Emulator σ) (dt : Nat) :
    (e.tickRunning dt).state.observers = e.observers ∧
      (e.tickRunning dt).state.input = e.input := by
  obtain ⟨watched, policy, observers, input, debt, meter⟩ := e
  rw [tickRunning]
  dsimp only
  split <;> exact ⟨rfl, rfl⟩

/-- A tick empties the queue, whatever else it does, and leaves the observers as they are. -/
theorem tick_kept (e : Emulator σ) (dt : Nat) :
    (e.tick dt).state.observers = e.observers ∧
      (e.tick dt).state.input = e.input.map fun _ ↦ {} := by
  rw [← (pollInput_told e).2, ← pollInput_input]
  cases h : e.debugger.singleStep with
  | true =>
    rw [tick_of_waiting h]
    exact tickWaiting_kept e.pollInput
  | false =>
    rw [tick_of_running h]
    split
    · exact ⟨rfl, rfl⟩
    · exact tickRunning_kept e.pollInput dt

/-- A tick while execution waits. -/
theorem goes_tickWaiting (e : Emulator σ) :
    Watched.Goes e.observers (List.replicate e.debugger.openRequests .step) e.toWatched
      e.tickWaiting.state.toWatched := by
  cases h : e.debugger.stepRequested with
  | false =>
    rw [tickWaiting_of_not_requested h, Debugger.openRequests_of_not_requested h]
    exact .refl _ _
  | true =>
    rw [(tickWaiting_of_requested h).1, Debugger.openRequests_of_requested h]
    obtain ⟨hmachine, hhistory, hbreakpoints, hnotes⟩ := Watched.goes_step e.observers e.served
    exact ⟨hmachine, hhistory, hbreakpoints, hnotes⟩

/-- A tick while execution runs freely. -/
theorem goes_tickRunning (e : Emulator σ) (dt : Nat) :
    ∃ k, Watched.Goes e.observers (List.replicate k .step) e.toWatched
        (e.tickRunning dt).state.toWatched ∧
      Watched.Makes k e.toWatched (e.tickRunning dt).state.toWatched
        (e.tickRunning dt).failures := by
  obtain ⟨watched, policy, observers, input, debt, meter⟩ := e
  obtain ⟨k, hgoes, hmakes⟩ := Watched.goes_runSlice observers (policy.budget dt)
    (watched.noteAll (cutEvents policy dt)) debt
  refine ⟨k, ?_⟩
  rw [tickRunning]
  dsimp only
  rcases hs : (watched.noteAll (cutEvents policy dt)).runSlice observers (policy.budget dt) debt
    with ⟨e | total, w'⟩
  · rw [hs] at hgoes hmakes
    exact ⟨⟨hgoes.machine_eq, hgoes.history_eq, hgoes.breakpoints_eq, hgoes.notes_eq⟩,
      hmakes.machine, hmakes.history⟩
  · rw [hs] at hgoes hmakes
    exact ⟨⟨hgoes.machine_eq, hgoes.history_eq, hgoes.breakpoints_eq, hgoes.notes_eq⟩,
      hmakes.machine, hmakes.history⟩

/-- What happens to the machine in a tick: the key events that wait, and after them some steps. -/
theorem goes_tick (e : Emulator σ) (dt : Nat) :
    Watched.Goes e.observers
      (e.waiting.map .keys ++ List.replicate (e.stepsIn (.tick dt)) .step)
      e.toWatched (e.tick dt).state.toWatched := by
  have hkeys := Watched.goes_keys e.observers e.toWatched e.waiting
  rw [← pollInput_toWatched] at hkeys
  refine hkeys.trans ?_
  rw [← (pollInput_told e).2]
  cases h : e.debugger.singleStep with
  | true =>
    rw [stepsIn_of_waiting h, tick_of_waiting h, ← pollInput_debugger]
    exact goes_tickWaiting e.pollInput
  | false =>
    obtain ⟨k, hgoes, hmakes⟩ : ∃ k, Watched.Goes e.pollInput.observers (List.replicate k .step)
        e.pollInput.toWatched (e.tick dt).state.toWatched ∧
          Watched.Makes k e.pollInput.toWatched (e.tick dt).state.toWatched
            (e.tick dt).failures := by
      rw [tick_of_running h]
      split
      · exact ⟨0, .refl _ _, .zero _⟩
      · exact goes_tickRunning e.pollInput dt
    rw [stepsIn_eq hmakes]
    exact hgoes

/-! ## Anything that a host does -/

/-- The emulator after something that a host has done. -/
def afterHost (e : Emulator σ) : HostAct → Emulator σ
  | .act a => e.after a
  | .push event => { e with input := e.input.map fun queue ↦ queue.push event }

/-- The emulator after all that a host has done. -/
def afterAll (e : Emulator σ) (run : List HostAct) : Emulator σ := run.foldl afterHost e

/-- What happens to the machine while a host does something. -/
def happeningsIn (e : Emulator σ) : HostAct → List Machine.Happening
  | .act (.tick dt) => e.waiting.map .keys ++ List.replicate (e.stepsIn (.tick dt)) .step
  | .act (.call _) => []
  | .push _ => []

/-- What happens to the machine in all. -/
def happenings (e : Emulator σ) (run : List HostAct) : List Machine.Happening :=
  outputs afterHost happeningsIn e run

/-- What observers are told while a host does something. -/
def toldIn (e : Emulator σ) (x : HostAct) : List Occasion :=
  e.machine.told e.debugger.breakpoints (e.happeningsIn x)

/-- What observers are told in all. -/
def told (e : Emulator σ) (run : List HostAct) : List Occasion := outputs afterHost toldIn e run

theorem happenings_cons (e : Emulator σ) (x : HostAct) (run : List HostAct) :
    e.happenings (x :: run) = e.happeningsIn x ++ (e.afterHost x).happenings run := rfl

theorem told_cons (e : Emulator σ) (x : HostAct) (run : List HostAct) :
    e.told (x :: run) = e.toldIn x ++ (e.afterHost x).told run := rfl

/-- From `e` to `e'` some things have happened to the machine, and some have been told. -/
structure Reaches (e : Emulator σ) (run : List Machine.Happening) (occasions : List Occasion)
    (e' : Emulator σ) : Prop where
  machine_eq : e'.machine = run.foldl Machine.after e.machine
  history_eq : e'.debugger.history =
    (e.machine.recorded run).foldl History.record e.debugger.history
  notes_eq : e'.notes = Observer.tell e.observers occasions e.notes
  observers_eq : e'.observers = e.observers

theorem Reaches.trans {e e' e'' : Emulator σ} {run run' : List Machine.Happening}
    {occasions occasions' : List Occasion} (h : e.Reaches run occasions e')
    (h' : e'.Reaches run' occasions' e'') :
    e.Reaches (run ++ run') (occasions ++ occasions') e'' where
  machine_eq := by rw [h'.machine_eq, h.machine_eq, List.foldl_append]
  history_eq := by
    rw [h'.history_eq, h.history_eq, h.machine_eq, Machine.recorded_append, List.foldl_append]
  notes_eq := by rw [h'.notes_eq, h.notes_eq, h.observers_eq, Observer.tell_append]
  observers_eq := h'.observers_eq.trans h.observers_eq

/-- One act. -/
theorem reaches_afterHost (e : Emulator σ) (x : HostAct) :
    e.Reaches (e.happeningsIn x) (e.toldIn x) (e.afterHost x) := by
  cases x with
  | act a =>
    cases a with
    | tick dt =>
      obtain ⟨hmachine, hhistory, -, hnotes⟩ := goes_tick e dt
      exact ⟨hmachine, hhistory, hnotes, (tick_kept e dt).1⟩
    | call c =>
      have hhistory : (c.apply e.debugger).history = e.debugger.history := by cases c <;> rfl
      exact ⟨rfl, hhistory, rfl, rfl⟩
  | push event => exact ⟨rfl, rfl, rfl, rfl⟩

/-- **Any number of acts**, by induction: what is told and recorded in one of them comes after what
was told and recorded before. -/
theorem reaches_afterAll (e : Emulator σ) (run : List HostAct) :
    e.Reaches (e.happenings run) (e.told run) (e.afterAll run) := by
  induction run generalizing e with
  | nil => exact ⟨rfl, rfl, rfl, rfl⟩
  | cons x run ih => exact (reaches_afterHost e x).trans (ih (e.afterHost x))

/-! ## One step after another -/

/-- A host asks for as many steps, and lets the emulator make each of them. -/
def stepByStep : Nat → List HostAct
  | 0 => []
  | k + 1 => .act (.call .requestStep) :: .act (.tick 0) :: stepByStep k

variable {e : Emulator σ}

/-- While execution waits, one of them happens in such a tick, and execution goes on to wait. -/
theorem waits_stepByStep (hwaits : e.debugger.singleStep = true) (hinput : e.input = none) :
    (e.after (.call .requestStep)).happeningsIn (.act (.tick 0)) = [.step] ∧
      ((e.after (.call .requestStep)).after (.tick 0)).debugger.singleStep = true ∧
      ((e.after (.call .requestStep)).after (.tick 0)).input = none := by
  have hwaits : (e.after (.call .requestStep)).debugger.singleStep = true := hwaits
  have hinput : (e.after (.call .requestStep)).input = none := hinput
  refine ⟨?_, (after_of_waiting hwaits (a := .tick 0) nofun).1, ?_⟩
  · rw [happeningsIn, waiting, hinput, stepsIn_of_waiting hwaits,
      Debugger.openRequests_of_requested rfl]
    rfl
  · rw [after, (tick_kept _ 0).2, hinput]
    rfl

theorem happenings_stepByStep (hwaits : e.debugger.singleStep = true) (hinput : e.input = none)
    (k : Nat) : e.happenings (stepByStep k) = List.replicate k .step := by
  induction k generalizing e with
  | zero => rfl
  | succ k ih =>
    obtain ⟨hone, hwaits', hinput'⟩ := waits_stepByStep hwaits hinput
    have hrest := ih hwaits' hinput'
    exact congrArg₂ (· ++ ·) hone hrest

end Emulator
end Handheld
