import Handheld.Emulator
import Handheld.Proofs.Machine.Resting
import Mathlib.Algebra.GroupWithZero.Nat
import Mathlib.Order.Bounds.Basic

/-!
# How time is cut into slices does not matter

An emulator that nobody disturbs (no breakpoint, no single steps, no key events) turns wall-clock
time into steps of its machine and into nothing else.  `Emulator.ticks` lets it tick with one length
after another, and `Emulator.slice_accounting` says what comes out: the machine has made the least
number of steps whose cycles reach the sum of the budgets, and the debt is what they exceed it by.
Which slices the time came in can be seen nowhere in the machine.

The slices are followed by one invariant, `Emulator.OnTime`: the machine that the emulator started
with approaches what it was given so far, and is ahead of it by the debt.  A tick may add a budget
smaller than the debt, in which case it makes no step, and the invariant holds because the bound
below which the machine was before each step has only grown.
-/

set_option autoImplicit false

namespace Handheld

variable {σ : Type}

/-! ## A watched machine without breakpoints -/

/-- Nothing stops execution: there are no breakpoints, and single steps are off. -/
structure Debugger.Unarmed (d : Debugger) : Prop where
  noBreakpoints : d.breakpoints.addresses = []
  notWaiting : d.singleStep = false

namespace Watched

theorem step_answer (observers : List (Observer σ)) (w : Watched σ) :
    (w.step observers).answer = w.machine.step.answer := by
  obtain ⟨machine, debugger, notes, journal⟩ := w
  rw [step]
  rcases hs : machine.step with ⟨e | c, machine'⟩
  · rfl
  · rfl

/-- A step that succeeds is a step of the machine. -/
theorem machine_of_step_eq_ok {observers : List (Observer σ)} {w w' : Watched σ} {cycles : Nat}
    (h : w.step observers = ⟨.ok cycles, w'⟩) : w.machine.step = ⟨.ok cycles, w'.machine⟩ := by
  obtain ⟨machine, debugger, notes, journal⟩ := w
  rw [step] at h
  rcases hs : machine.step with ⟨e | c, machine'⟩
  · simp [hs] at h
  · simp only [hs, Outcome.mk.injEq, Except.ok.injEq] at h
    obtain ⟨rfl, rfl⟩ := h
    rw [checkBreakpoint]
    dsimp only
    split <;> rfl

theorem unarmed_of_step_eq_ok {observers : List (Observer σ)} {w w' : Watched σ} {cycles : Nat}
    (hw : w.debugger.Unarmed) (h : w.step observers = ⟨.ok cycles, w'⟩) : w'.debugger.Unarmed := by
  obtain ⟨machine, debugger, notes, journal⟩ := w
  rw [step] at h
  rcases hs : machine.step with ⟨e | c, machine'⟩
  · simp [hs] at h
  · simp only [hs, Outcome.mk.injEq, Except.ok.injEq] at h
    obtain ⟨rfl, rfl⟩ := h
    have hnone : ∀ a, (debugger.record machine.cpu.regs.pc).hasBreakpoint a = false := by
      intro a
      show (debugger.breakpoints.addresses.contains a) = false
      rw [hw.noBreakpoints]
      rfl
    rw [checkBreakpoint, hnone]
    exact ⟨hw.noBreakpoints, hw.notWaiting⟩

theorem runSlice_of_not_lt (observers : List (Observer σ)) {budget elapsed : Nat} (w : Watched σ)
    (h : ¬elapsed < budget) : w.runSlice observers budget elapsed = ⟨.ok elapsed, w⟩ := by
  rw [runSlice, if_neg fun hb ↦ h hb.1]

/-- While execution runs freely, a slice is a step and then the rest of the slice. -/
theorem runSlice_of_lt (observers : List (Observer σ)) {budget elapsed : Nat} {w : Watched σ}
    (hw : w.debugger.singleStep = false) (h : elapsed < budget) :
    w.runSlice observers budget elapsed =
      (w.step observers).andThen fun cycles w ↦ w.runSlice observers budget (elapsed + cycles) := by
  rw [runSlice, if_pos ⟨h, hw⟩]
  split
  · rename_i hs
    rw [hs, Outcome.andThen_error]
  · rename_i hs
    rw [hs, Outcome.andThen_ok]

/-- **A slice ends as soon as its budget is used up.**  It began `base` cycles after the start of
`m`; the machine approaches the end of the slice throughout. -/
theorem approaches_of_runSlice_eq_ok {observers : List (Observer σ)} {budget elapsed total : Nat}
    {w w' : Watched σ} {m : Machine} {base : Nat} (hw : w.debugger.Unarmed)
    (ha : m.Approaches (base + budget) (base + elapsed) w.machine) (hlt : elapsed < budget + 24)
    (h : w.runSlice observers budget elapsed = ⟨.ok total, w'⟩) :
    w'.debugger.Unarmed ∧ m.Approaches (base + budget) (base + total) w'.machine ∧
      elapsed ≤ total ∧ budget ≤ total ∧ total < budget + 24 := by
  induction hn : budget - elapsed using Nat.strongRecOn generalizing elapsed w with
  | ind n ih =>
    by_cases hlt' : elapsed < budget
    · rw [runSlice_of_lt observers hw.notWaiting hlt', Outcome.andThen_eq_ok] at h
      obtain ⟨cycles, w₁, hs, hrest⟩ := h
      have hm := machine_of_step_eq_ok hs
      obtain ⟨-, hpos, hle⟩ := Machine.step_range hm
      have ha₁ := ha.step (by omega) hm
      rw [Nat.add_assoc] at ha₁
      obtain ⟨hw', ha', hge, hrest'⟩ := ih (budget - (elapsed + cycles)) (by omega)
        (unarmed_of_step_eq_ok hw hs) ha₁ (by omega) hrest rfl
      exact ⟨hw', ha', by omega, hrest'⟩
    · rw [runSlice_of_not_lt observers w hlt'] at h
      cases h
      exact ⟨hw, ha, Nat.le_refl _, Nat.le_of_not_lt hlt', hlt⟩

end Watched

/-! ## Ticks -/

namespace Emulator

/-- Nothing but time drives the emulator: execution runs freely, and no key event is waiting. -/
structure Undisturbed (e : Emulator σ) : Prop where
  unarmed : e.debugger.Unarmed
  noEvents : ∀ queue, e.input = some queue → queue.toList = []

/-- An emulator that has not run yet, and that nothing but time is going to drive. -/
structure Fresh (e : Emulator σ) : Prop extends Undisturbed e where
  noDebt : e.cycleDebt = 0

/-- Lets an emulator tick with one length after another, up to the first failure. -/
def ticks (e : Emulator σ) : List Nat → Outcome (Emulator σ) (List TickReport)
  | [] => ⟨.ok [], e⟩
  | dt :: dts =>
    (e.tick dt).andThen fun report e ↦
      (e.ticks dts).andThen fun reports e ↦ ⟨.ok (report :: reports), e⟩

/-- The cycles that a series of ticks was given. -/
def given (reports : List TickReport) : Nat := (reports.map fun r ↦ r.budget).sum

/-- The cycles that were run in a series of ticks. -/
def cyclesRun (reports : List TickReport) : Nat := (reports.map fun r ↦ r.cyclesRun).sum

/-- The invariant of a series of ticks: `m`, with which it began, approaches what it has been given,
and is ahead of it by the debt. -/
structure OnTime (m : Machine) (given : Nat) (e : Emulator σ) : Prop where
  approaches : m.Approaches given (given + e.cycleDebt) e.machine
  debt_lt : e.cycleDebt < 24

/-- Without events, looking for them changes the queue at most. -/
theorem pollInput_eq {e : Emulator σ} (h : e.Undisturbed) :
    ∃ input, e.pollInput = { e with input } ∧ ∀ queue, input = some queue → queue.toList = [] := by
  obtain ⟨watched, policy, observers, input, debt, meter⟩ := e
  cases input with
  | none => exact ⟨none, rfl, h.noEvents⟩
  | some queue =>
    refine ⟨some {}, ?_, ?_⟩
    · have hq : queue.toList = [] := h.noEvents queue rfl
      simp only [pollInput, InputQueue.drain, hq]
      rfl
    · rintro _ ⟨⟩
      rfl

theorem budget_zero (p : PacingPolicy) : p.budget 0 = 0 := by
  simp [PacingPolicy.budget, PacingPolicy.sliceCycles]

/-- **One tick.**  Its budget is that of the policy, the cycles it runs change the debt by what they
differ from the budget, and the emulator stays on time. -/
theorem OnTime.tick {m : Machine} {base dt : Nat} {e e' : Emulator σ} {report : TickReport}
    (hu : e.Undisturbed) (ht : e.OnTime m base) (h : e.tick dt = ⟨.ok report, e'⟩) :
    e'.Undisturbed ∧ e'.policy = e.policy ∧ report.budget = e.policy.budget dt ∧
      e.cycleDebt + report.cyclesRun = report.budget + e'.cycleDebt ∧
      e'.OnTime m (base + report.budget) := by
  obtain ⟨input, hpoll, hevents⟩ := pollInput_eq hu
  obtain ⟨watched, policy, observers, input₀, debt, meter⟩ := e
  rw [Emulator.tick, hpoll] at h
  dsimp only at h
  rw [if_neg (by rw [hu.unarmed.notWaiting]; decide)] at h
  by_cases hdt : dt = 0
  · rw [if_pos hdt] at h
    cases h
    exact ⟨⟨hu.unarmed, hevents⟩, rfl, by rw [hdt, budget_zero], by simp,
      ⟨ht.approaches, ht.debt_lt⟩⟩
  · rw [if_neg hdt, tickRunning] at h
    dsimp only at h
    rcases hs : (watched.noteAll (cutEvents policy dt)).runSlice observers (policy.budget dt) debt
      with ⟨e | total, w'⟩
    · simp [hs] at h
    · simp only [hs, Outcome.mk.injEq, Except.ok.injEq] at h
      obtain ⟨rfl, rfl⟩ := h
      have hdebt : debt < 24 := ht.debt_lt
      have ha₀ : m.Approaches (base + policy.budget dt) (base + debt) watched.machine :=
        ht.approaches.mono (Nat.le_add_right _ _)
      have hu₀ : (watched.noteAll (cutEvents policy dt)).debugger.Unarmed := hu.unarmed
      obtain ⟨hw, ha, hge, hle, hlt⟩ :=
        Watched.approaches_of_runSlice_eq_ok hu₀ ha₀ (by omega) hs
      refine ⟨⟨hw, hevents⟩, rfl, rfl, ?_, ⟨?_, ?_⟩⟩
      · show debt + (total - debt) = policy.budget dt + (total - policy.budget dt)
        omega
      · show m.Approaches _ (base + policy.budget dt + (total - policy.budget dt)) _
        rw [Nat.add_assoc, Nat.add_sub_cancel' hle]
        exact ha
      · show total - policy.budget dt < 24
        omega

/-- **A series of ticks**, by induction on it. -/
theorem OnTime.ticks {m : Machine} {base : Nat} {dts : List Nat} {e e' : Emulator σ}
    {reports : List TickReport} (hu : e.Undisturbed) (ht : e.OnTime m base)
    (h : e.ticks dts = ⟨.ok reports, e'⟩) :
    reports.map (fun r ↦ r.budget) = dts.map e.policy.budget ∧
      e.cycleDebt + cyclesRun reports = given reports + e'.cycleDebt ∧
      e'.OnTime m (base + given reports) := by
  induction dts generalizing e base reports with
  | nil =>
    cases h
    exact ⟨rfl, by simp [cyclesRun, given], ht⟩
  | cons dt dts ih =>
    rw [Emulator.ticks] at h
    obtain ⟨report, e₁, h₁, h⟩ := Outcome.andThen_eq_ok.1 h
    obtain ⟨rest, e₂, h₂, h⟩ := Outcome.andThen_eq_ok.1 h
    cases h
    obtain ⟨hu₁, hp, hb, hc, ht₁⟩ := OnTime.tick hu ht h₁
    obtain ⟨hbs, hcs, ht₂⟩ := ih hu₁ ht₁ h₂
    refine ⟨?_, ?_, ?_⟩
    · rw [List.map_cons, List.map_cons, hbs, hb, hp]
    · simp only [cyclesRun, given, List.map_cons, List.sum_cons] at hcs ⊢
      omega
    · rw [given, List.map_cons, List.sum_cons, ← Nat.add_assoc]
      exact ht₂

/-- A fresh emulator is on time for its own machine. -/
theorem Fresh.onTime {e : Emulator σ} (h : e.Fresh) : e.OnTime e.machine 0 := by
  refine ⟨?_, ?_⟩
  · rw [h.noDebt]
    exact Machine.Approaches.start e.machine 0
  · rw [h.noDebt]
    decide

/-- What a series of ticks leaves, as steps of the machine with which it began. -/
theorem Fresh.ticks_eq_steps {e : Emulator σ} {dts : List Nat} {reports : List TickReport}
    (fresh : e.Fresh) (ok : (e.ticks dts).answer = .ok reports) :
    (∃ k, IsLeast {k | ∃ total, (e.machine.steps k).answer = .ok total ∧ given reports ≤ total} k ∧
        e.machine.steps k = ⟨.ok (cyclesRun reports), (e.ticks dts).state.machine⟩) ∧
      cyclesRun reports = given reports + (e.ticks dts).state.cycleDebt ∧
      (e.ticks dts).state.cycleDebt < 24 ∧
      reports.map (fun r ↦ r.budget) = dts.map e.policy.budget := by
  obtain ⟨hb, hc, ht⟩ := OnTime.ticks fresh.toUndisturbed fresh.onTime (Outcome.eq_ok_of_answer ok)
  rw [fresh.noDebt, Nat.zero_add] at hc
  rw [Nat.zero_add] at ht
  have ha := ht.approaches
  rw [← hc] at ha
  exact ⟨ha.isLeast (by omega), hc, ht.debt_lt, hb⟩

/-! ## A slow clock -/

/-- A clock of one cycle in a millisecond. -/
def slowClock : PacingPolicy := { clockHz := 1000 }

theorem slowClock_budget : ∀ dt < 4, slowClock.budget dt = dt ∧ slowClock.isCut dt = false := by
  decide

theorem slowClock_record {meter : SpeedMeter} {dt cycles : Nat} (h : meter.elapsedMs + dt < 1000) :
    meter.record slowClock dt cycles =
      (none,
        { meter with elapsedMs := meter.elapsedMs + dt, cycles := meter.cycles + cycles }) := by
  rw [SpeedMeter.record]
  exact if_pos h

/-- A tick by the slow clock, from the slice that it runs. -/
theorem tick_of_slowClock {observers : List (Observer σ)} {w w' : Watched σ} (meter : SpeedMeter)
    {debt dt elapsed : Nat} (hw : w.debugger.singleStep = false) (hpos : 0 < dt) (hdt : dt < 4)
    (hm : meter.elapsedMs + dt < 1000) (h : w.runSlice observers dt debt = ⟨.ok elapsed, w'⟩) :
    tick ⟨w, slowClock, observers, none, debt, meter⟩ dt =
      ⟨.ok ⟨dt, elapsed - debt, false, none⟩, ⟨w', slowClock, observers, none, elapsed - dt,
        { meter with elapsedMs := meter.elapsedMs + dt, cycles := meter.cycles + dt }⟩⟩ := by
  obtain ⟨hb, hc⟩ := slowClock_budget dt hdt
  have hnone : w.noteAll (cutEvents slowClock dt) = w := by
    rw [cutEvents, hc]
    rfl
  have hpoll : pollInput ⟨w, slowClock, observers, none, debt, meter⟩ =
      ⟨w, slowClock, observers, none, debt, meter⟩ := rfl
  rw [tick, hpoll]
  dsimp only
  rw [if_neg (by rw [hw]; decide), if_neg (by omega), tickRunning]
  dsimp only
  rw [hnone, hb, h]
  dsimp only
  rw [hc, slowClock_record hm]
  rfl

/-- An emulator with a slow clock, whose machine does nothing but `nop`. -/
def slow (bus : SystemBus) : Emulator Unit :=
  ⟨{ machine := .restingOn bus, notes := () }, slowClock, [], none, 0, {}⟩

theorem fresh_slow (bus : SystemBus) : (slow bus).Fresh where
  unarmed := ⟨rfl, rfl⟩
  noEvents := nofun
  noDebt := rfl

/-- Two ticks of one and two milliseconds, and one of three. -/
theorem ticks_slow {bus : SystemBus} (h : bus.IsBlank) :
    ((slow bus).ticks [1, 2]).answer = .ok [⟨1, 4, false, none⟩, ⟨2, 0, false, none⟩] ∧
      ((slow bus).ticks [3]).answer = .ok [⟨3, 4, false, none⟩] := by
  obtain ⟨m', hm, -⟩ := Machine.step_restingOn h
  have hstep := Outcome.eq_ok_of_answer
    (((slow bus).step_answer []).trans (congrArg Outcome.answer hm))
  have hawake := (Watched.unarmed_of_step_eq_ok (fresh_slow bus).unarmed hstep).notWaiting
  have hslice (dt : Nat) (hpos : 0 < dt) (hdt : dt < 4) :
      (slow bus).runSlice [] dt 0 = ⟨.ok 4, ((slow bus).step []).state⟩ := by
    rw [Watched.runSlice_of_lt [] rfl hpos, hstep, Outcome.andThen_ok]
    exact Watched.runSlice_of_not_lt [] _ (by omega)
  have htick (dt : Nat) (hpos : 0 < dt) (hdt : dt < 4) : (slow bus).tick dt = _ :=
    tick_of_slowClock {} rfl hpos hdt (by show 0 + dt < 1000; omega) (hslice dt hpos hdt)
  constructor
  · rw [ticks, htick 1 (by decide) (by decide), Outcome.andThen_ok, ticks,
      tick_of_slowClock _ hawake (by decide) (by decide) (by decide)
        (Watched.runSlice_of_not_lt [] _ (by decide))]
    rfl
  · rw [ticks, htick 3 (by decide) (by decide)]
    rfl

/-! ## All of it -/

/-- **Slices are accounted for exactly.**  After a series of ticks of a fresh emulator its machine
has made the least number of steps whose cycles reach the sum of the budgets; the cycles reported as
run are those of these steps, and the debt, which is below 24, is what they exceed the budgets by.
The budgets are those of the policy.  So any other series of ticks that was given as much, whatever
the policy and whoever watches, leaves the same machine. -/
theorem slice_accounting {τ : Type} (e : Emulator σ) (dts : List Nat) (reports : List TickReport)
    (fresh : e.Fresh) (ok : (e.ticks dts).answer = .ok reports) :
    (∃ k, IsLeast {k | ∃ total, (e.machine.steps k).answer = .ok total ∧ given reports ≤ total} k ∧
        e.machine.steps k = ⟨.ok (cyclesRun reports), (e.ticks dts).state.machine⟩) ∧
      cyclesRun reports = given reports + (e.ticks dts).state.cycleDebt ∧
      (e.ticks dts).state.cycleDebt < 24 ∧
      reports.map (fun r ↦ r.budget) = dts.map e.policy.budget ∧
      ∀ (e' : Emulator τ) (dts' : List Nat) (reports' : List TickReport),
        e'.Fresh → e'.machine = e.machine → (e'.ticks dts').answer = .ok reports' →
          given reports' = given reports →
            (e'.ticks dts').state.machine = (e.ticks dts).state.machine := by
  obtain ⟨⟨k, hk, hsteps⟩, hc, hd, hb⟩ := fresh.ticks_eq_steps ok
  refine ⟨⟨k, hk, hsteps⟩, hc, hd, hb, fun e' dts' reports' fresh' same ok' given' ↦ ?_⟩
  obtain ⟨⟨k', hk', hsteps'⟩, -⟩ := fresh'.ticks_eq_steps ok'
  rw [same, given'] at hk'
  rw [same, hk'.unique hk, hsteps] at hsteps'
  exact (congrArg Outcome.state hsteps').symm

/-- A machine at rest by a slow clock: its first tick runs ahead so far that the second makes no
step, and a single tick of three milliseconds does as much. -/
theorem slice_accounting_slow :
    (slow .blank).Fresh ∧
      ((slow .blank).ticks [1, 2]).answer = .ok [⟨1, 4, false, none⟩, ⟨2, 0, false, none⟩] ∧
      ((slow .blank).ticks [1, 2]).state.cycleDebt = 1 ∧
      ((slow .blank).ticks [3]).state.machine = ((slow .blank).ticks [1, 2]).state.machine := by
  obtain ⟨ok, ok'⟩ := ticks_slow SystemBus.isBlank_blank
  obtain ⟨-, hc, -, -, hsame⟩ := slice_accounting (τ := Unit) _ [1, 2] _ (fresh_slow .blank) ok
  refine ⟨fresh_slow _, ok, ?_, hsame _ [3] _ (fresh_slow _) rfl ok' rfl⟩
  have hrun : cyclesRun [⟨1, 4, false, none⟩, ⟨2, 0, false, none⟩] = 4 := rfl
  have hgiven : given [⟨1, 4, false, none⟩, ⟨2, 0, false, none⟩] = 3 := rfl
  rw [hrun, hgiven] at hc
  omega

end Emulator
end Handheld
