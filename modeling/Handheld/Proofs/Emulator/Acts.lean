import Handheld.Proofs.Emulator.Slices
import Mathlib.Logic.Function.Iterate

/-!
# Ticks and calls of the debugger

An emulator is driven from two sides: time passes, and the debugger is called.  This file says of
each `Act` what it does to the machine and to the debugger.

A tick makes some steps of the machine, and nothing else but key events changes it
(`Emulator.machine_tick`).  How many steps they are can be told from outside: every step that
succeeds is added to the history, and one that fails ends the tick with its error.  So
`Emulator.stepsIn` is defined by what the tick leaves behind, and `Watched.Makes` connects it with
the steps themselves.

While execution waits, a tick makes a step exactly if one has been asked for
(`Emulator.after_of_waiting`).
-/

set_option autoImplicit false

namespace Handheld

variable {σ : Type}

/-! ## What happens to an emulator -/

/-- A call of the debugger that changes something. -/
inductive DebuggerCall where
  | addBreakpoint (a : UInt16)
  | toggleBreakpoint (a : UInt16)
  | clearBreakpoints
  | enableSingleStep
  | toggleSingleStep
  | requestStep
  deriving DecidableEq

/-- The debugger after a call. -/
def DebuggerCall.apply (d : Debugger) : DebuggerCall → Debugger
  | addBreakpoint a => (d.addBreakpoint a).2
  | toggleBreakpoint a => (d.toggleBreakpoint a).2
  | clearBreakpoints => d.clearBreakpoints
  | enableSingleStep => d.enableSingleStep
  | toggleSingleStep => d.toggleSingleStep
  | requestStep => d.requestStep

/-- What can be done with an emulator. -/
inductive Act where
  | tick (dt : Nat)
  | call (c : DebuggerCall)
  deriving DecidableEq

namespace Act

/-- The act ends a pause, or begins one. -/
def Toggles (a : Act) : Prop := a = .call .toggleSingleStep

/-- The act asks for a step. -/
def Requests (a : Act) : Prop := a = .call .requestStep

/-- The number of steps that the act asks for. -/
def requested (a : Act) : Nat := if a = .call .requestStep then 1 else 0

end Act

/-- The number of steps that have been asked for and not been made: one or none. -/
def Debugger.openRequests (d : Debugger) : Nat := if d.stepRequested then 1 else 0

theorem Debugger.openRequests_of_requested {d : Debugger} (h : d.stepRequested = true) :
    d.openRequests = 1 := if_pos h

theorem Debugger.openRequests_of_not_requested {d : Debugger} (h : d.stepRequested = false) :
    d.openRequests = 0 := by
  rw [openRequests, h]
  rfl

/-! ## Steps, and where they show -/

/-- The number of steps that failed at the end of a tick: one or none. -/
def Outcome.failures {ρ α : Type} (o : Outcome ρ α) : Nat :=
  match o.answer with
  | .ok _ => 0
  | .error _ => 1

namespace Watched

/-- From `w` to `w'` the machine has made `k` steps, all but the failing ones of which have been
added to the history. -/
structure Makes (k : Nat) (w w' : Watched σ) (failures : Nat) : Prop where
  machine : w'.machine = (fun m ↦ m.step.state)^[k] w.machine
  history : w'.debugger.history.count + failures = w.debugger.history.count + k

theorem Makes.zero (w : Watched σ) : Makes 0 w w 0 := ⟨rfl, rfl⟩

theorem Makes.trans {j k failures : Nat} {w w' w'' : Watched σ} (h : Makes j w w' 0)
    (h' : Makes k w' w'' failures) : Makes (k + j) w w'' failures := by
  refine ⟨?_, ?_⟩
  · rw [h'.machine, h.machine, Function.iterate_add_apply]
  · have := h.history
    have := h'.history
    omega

/-- A step is one step. -/
theorem makes_step (observers : List (Observer σ)) (w : Watched σ) :
    Makes 1 w (w.step observers).state (w.step observers).failures := by
  obtain ⟨machine, debugger, notes, journal⟩ := w
  rw [step]
  rcases hs : machine.step with ⟨e | c, machine'⟩
  · exact ⟨(congrArg Outcome.state hs).symm, rfl⟩
  · simp only [checkBreakpoint]
    split <;> exact ⟨(congrArg Outcome.state hs).symm, rfl⟩

/-- It may make execution wait, and does not touch the request. -/
theorem step_debugger (observers : List (Observer σ)) (w : Watched σ) :
    (w.step observers).state.debugger.stepRequested = w.debugger.stepRequested ∧
      (w.debugger.singleStep = true → (w.step observers).state.debugger.singleStep = true) := by
  obtain ⟨machine, debugger, notes, journal⟩ := w
  rw [step]
  rcases hs : machine.step with ⟨e | c, machine'⟩
  · exact ⟨rfl, id⟩
  · simp only [checkBreakpoint]
    split
    · exact ⟨rfl, fun _ ↦ rfl⟩
    · exact ⟨rfl, id⟩

/-- A slice is some steps, and does not touch the request. -/
theorem makes_runSlice (observers : List (Observer σ)) (budget : Nat) (w : Watched σ)
    (elapsed : Nat) :
    (∃ k, Makes k w (w.runSlice observers budget elapsed).state
        (w.runSlice observers budget elapsed).failures) ∧
      (w.runSlice observers budget elapsed).state.debugger.stepRequested =
        w.debugger.stepRequested := by
  induction w, elapsed using runSlice.induct observers budget with
  | case1 w elapsed h e w' hs =>
    have hmakes := makes_step observers w
    have hrequest := (step_debugger observers w).1
    rw [hs] at hmakes hrequest
    rw [runSlice_of_lt observers h.2 h.1, hs, Outcome.andThen_error]
    exact ⟨⟨1, hmakes⟩, hrequest⟩
  | case2 w elapsed h cycles w' hs ih =>
    have hmakes := makes_step observers w
    have hrequest := (step_debugger observers w).1
    rw [hs] at hmakes hrequest
    obtain ⟨⟨k, hk⟩, hrest⟩ := ih
    rw [runSlice_of_lt observers h.2 h.1, hs, Outcome.andThen_ok]
    exact ⟨⟨k + 1, hmakes.trans hk⟩, hrest.trans hrequest⟩
  | case3 w elapsed h =>
    rw [runSlice, if_neg h]
    exact ⟨⟨0, .zero w⟩, rfl⟩

end Watched

namespace Emulator

/-! ## One tick -/

/-- The emulator after an act. -/
def after (e : Emulator σ) : Act → Emulator σ
  | .tick dt => (e.tick dt).state
  | .call c => { e with debugger := c.apply e.debugger }

/-- The number of steps that the machine makes in an act. -/
def stepsIn (e : Emulator σ) : Act → Nat
  | .tick dt =>
    (e.tick dt).state.debugger.history.count + (e.tick dt).failures - e.debugger.history.count
  | .call _ => 0

theorem pollInput_debugger (e : Emulator σ) : e.pollInput.debugger = e.debugger := by
  obtain ⟨watched, policy, observers, input, debt, meter⟩ := e
  cases input <;> rfl

/-- While execution waits, a tick for which no step has been asked does nothing. -/
theorem tickWaiting_of_not_requested {e : Emulator σ} (h : e.debugger.stepRequested = false) :
    e.tickWaiting = ⟨.ok {}, e⟩ := by
  obtain ⟨⟨machine, ⟨breakpoints, singleStep, requested, history⟩, notes, journal⟩, policy,
    observers, input, debt, meter⟩ := e
  cases h
  rfl

/-- The watched machine without the request. -/
def served (e : Emulator σ) : Watched σ :=
  { e.toWatched with debugger := e.debugger.takeRequest.2 }

/-- If one has been asked for, the tick is a step. -/
theorem tickWaiting_of_requested {e : Emulator σ} (h : e.debugger.stepRequested = true) :
    e.tickWaiting.state.toWatched = (e.served.step e.observers).state ∧
      e.tickWaiting.failures = (e.served.step e.observers).failures := by
  obtain ⟨⟨machine, ⟨breakpoints, singleStep, requested, history⟩, notes, journal⟩, policy,
    observers, input, debt, meter⟩ := e
  cases h
  rw [tickWaiting, served]
  simp only [Debugger.takeRequest, if_true]
  split <;> rename_i hs <;> rw [hs] <;> exact ⟨rfl, rfl⟩

/-- While execution waits, a tick makes the step that has been asked for, and no other; the pause
goes on, with no request open. -/
theorem makes_tickWaiting (e : Emulator σ) :
    Watched.Makes e.debugger.openRequests e.toWatched e.tickWaiting.state.toWatched
        e.tickWaiting.failures ∧
      e.tickWaiting.state.debugger.stepRequested = false ∧
      (e.debugger.singleStep = true → e.tickWaiting.state.debugger.singleStep = true) := by
  cases h : e.debugger.stepRequested with
  | false =>
    rw [tickWaiting_of_not_requested h, Debugger.openRequests_of_not_requested h]
    exact ⟨.zero _, h, id⟩
  | true =>
    obtain ⟨hstate, hfailures⟩ := tickWaiting_of_requested h
    obtain ⟨hrequest, hwaits⟩ := Watched.step_debugger e.observers e.served
    obtain ⟨hmachine, hhistory⟩ := Watched.makes_step e.observers e.served
    rw [Debugger.openRequests_of_requested h, hstate, hfailures]
    exact ⟨⟨hmachine, hhistory⟩, hrequest, hwaits⟩

/-- While execution runs freely, a tick makes any number of steps, and a request stays as it is. -/
theorem makes_tickRunning (e : Emulator σ) (dt : Nat) :
    (∃ k, Watched.Makes k e.toWatched (e.tickRunning dt).state.toWatched
        (e.tickRunning dt).failures) ∧
      (e.tickRunning dt).state.debugger.stepRequested = e.debugger.stepRequested := by
  obtain ⟨watched, policy, observers, input, debt, meter⟩ := e
  obtain ⟨⟨k, hk⟩, hrequest⟩ := Watched.makes_runSlice observers (policy.budget dt)
    (watched.noteAll (cutEvents policy dt)) debt
  rw [tickRunning]
  dsimp only
  rcases hs : (watched.noteAll (cutEvents policy dt)).runSlice observers (policy.budget dt) debt
    with ⟨e | total, w'⟩
  · rw [hs] at hk hrequest
    exact ⟨⟨k, hk.machine, hk.history⟩, hrequest⟩
  · rw [hs] at hk hrequest
    exact ⟨⟨k, hk.machine, hk.history⟩, hrequest⟩

theorem tick_of_waiting {e : Emulator σ} (h : e.debugger.singleStep = true) (dt : Nat) :
    e.tick dt = e.pollInput.tickWaiting := by
  rw [tick, if_pos (by rw [pollInput_debugger, h])]

theorem tick_of_running {e : Emulator σ} (h : e.debugger.singleStep = false) (dt : Nat) :
    e.tick dt = if dt = 0 then ⟨.ok {}, e.pollInput⟩ else e.pollInput.tickRunning dt := by
  rw [tick, if_neg (by rw [pollInput_debugger, h]; decide)]

theorem stepsIn_eq {e : Emulator σ} {dt k : Nat}
    (h : Watched.Makes k e.pollInput.toWatched (e.tick dt).state.toWatched (e.tick dt).failures) :
    e.stepsIn (.tick dt) = k := by
  have hhistory := h.history
  rw [pollInput_debugger] at hhistory
  rw [stepsIn, hhistory, Nat.add_sub_cancel_left]

theorem stepsIn_of_waiting {e : Emulator σ} (h : e.debugger.singleStep = true) (dt : Nat) :
    e.stepsIn (.tick dt) = e.debugger.openRequests := by
  have hmakes := (makes_tickWaiting e.pollInput).1
  rw [← tick_of_waiting h dt, pollInput_debugger] at hmakes
  exact stepsIn_eq hmakes

/-- **What a tick does to the machine**: after the key events, `stepsIn` steps. -/
theorem machine_tick (e : Emulator σ) (dt : Nat) :
    (e.tick dt).state.machine =
      (fun m ↦ m.step.state)^[e.stepsIn (.tick dt)] e.pollInput.machine := by
  have hmakes : ∃ k, Watched.Makes k e.pollInput.toWatched (e.tick dt).state.toWatched
      (e.tick dt).failures := by
    cases h : e.debugger.singleStep with
    | true =>
      rw [tick_of_waiting h]
      exact ⟨_, (makes_tickWaiting e.pollInput).1⟩
    | false =>
      rw [tick_of_running h]
      split
      · exact ⟨0, .zero _⟩
      · exact (makes_tickRunning e.pollInput dt).1
  obtain ⟨k, hk⟩ := hmakes
  rw [stepsIn_eq hk, hk.machine]

/-! ## One act -/

/-- While execution waits, a step is made only against a request, and nothing but a toggle ends
it. -/
theorem after_of_waiting {e : Emulator σ} (h : e.debugger.singleStep = true) {a : Act}
    (ha : ¬a.Toggles) :
    (e.after a).debugger.singleStep = true ∧
      (¬a.Requests →
        e.stepsIn a + (e.after a).debugger.openRequests = e.debugger.openRequests) ∧
      (a.Requests → e.stepsIn a = 0 ∧ (e.after a).debugger.openRequests = 1) := by
  cases a with
  | tick dt =>
    obtain ⟨-, hserved, hwaits⟩ := makes_tickWaiting e.pollInput
    rw [← tick_of_waiting h dt] at hserved hwaits
    rw [pollInput_debugger] at hwaits
    refine ⟨hwaits h, fun _ ↦ ?_, nofun⟩
    rw [stepsIn_of_waiting h, after, Debugger.openRequests_of_not_requested hserved, Nat.add_zero]
  | call c =>
    cases c with
    | toggleSingleStep => exact absurd rfl ha
    | requestStep => exact ⟨h, fun hno ↦ absurd rfl hno, fun _ ↦ ⟨rfl, rfl⟩⟩
    | enableSingleStep => exact ⟨rfl, fun _ ↦ Nat.zero_add _, nofun⟩
    | _ => exact ⟨h, fun _ ↦ Nat.zero_add _, nofun⟩

/-- The act leaves no request open that was open before. -/
def Drops (e : Emulator σ) (a : Act) : Prop :=
  a.Toggles ∨ e.debugger.singleStep = true ∧ ∃ dt, a = .tick dt

/-- A request is open after an act that makes one, and after an act that does not drop it. -/
theorem stepRequested_after (e : Emulator σ) (a : Act) :
    (e.after a).debugger.stepRequested = true ↔
      a.Requests ∨ e.debugger.stepRequested = true ∧ ¬e.Drops a := by
  cases a with
  | tick dt =>
    cases h : e.debugger.singleStep with
    | true =>
      have hserved := (makes_tickWaiting e.pollInput).2.1
      rw [← tick_of_waiting h dt] at hserved
      simp [after, hserved, Act.Requests, Drops, h]
    | false =>
      have hrequest : (e.tick dt).state.debugger.stepRequested = e.debugger.stepRequested := by
        rw [tick_of_running h]
        split
        · rw [pollInput_debugger]
        · rw [(makes_tickRunning e.pollInput dt).2, pollInput_debugger]
      simp [after, hrequest, Act.Requests, Act.Toggles, Drops, h]
  | call c =>
    cases c with
    | toggleSingleStep =>
      simp [after, DebuggerCall.apply, Debugger.toggleSingleStep, Act.Requests, Act.Toggles, Drops]
    | requestStep => simp [after, DebuggerCall.apply, Debugger.requestStep, Act.Requests]
    | _ =>
      simp [after, DebuggerCall.apply, Act.Requests, Act.Toggles, Drops, Debugger.addBreakpoint,
        Debugger.toggleBreakpoint, Debugger.clearBreakpoints, Debugger.enableSingleStep]

end Emulator
end Handheld
