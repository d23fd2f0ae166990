import Handheld.Proofs.Emulator.Course
import Handheld.Proofs.Machine.ReadOnly
import Handheld.Proofs.Machine.Runs
import Mathlib.Data.List.FinRange

/-!
# Observers miss nothing

Whatever a host does, as long as its ticks succeed every observer is called once for every step that
the machine makes, with the machine as it is after that step.  That the boot ROM has been switched
off is found out by comparing the machine before and after a step, so there are two ways in which
the observers could be told of it wrongly: it might be switched off outside of a step, which key
events do not do, or it might be mapped again and switched off a second time, which cannot be
(`Machine.bootRom_run_of_none`).

All observers write to the same notes, so what one of them is told is not a part of these.
`Observer.calls` lists the calls themselves, each with the observer that is called, and
`Observer.receivedBy` picks those to one observer.
-/

set_option autoImplicit false

namespace Handheld

variable {σ : Type}

/-! ## The calls to each observer -/

namespace Occasion

/-- The machine after the step, if it is a step that is told. -/
def step? : Occasion → Option Machine
  | .step m => some m
  | .bootRomUnmapped _ => none
  | .breakpoint _ _ => none

/-- The machine without its boot ROM, if that is what is told. -/
def bootRomUnmapped? : Occasion → Option Machine
  | .step _ => none
  | .bootRomUnmapped m => some m
  | .breakpoint _ _ => none

/-- It is told whatever breakpoints there are. -/
def isUnconditional : Occasion → Bool
  | .step _ => true
  | .bootRomUnmapped _ => true
  | .breakpoint _ _ => false

theorem filterMap_filter {α : Type} {pick : Occasion → Option α}
    (hnone : ∀ m a, pick (.breakpoint m a) = none) (occasions : List Occasion) :
    (occasions.filter isUnconditional).filterMap pick = occasions.filterMap pick := by
  rw [List.filterMap_filter]
  refine congrArg (occasions.filterMap ·) (funext fun x ↦ ?_)
  cases x with
  | step m => rfl
  | bootRomUnmapped m => rfl
  | breakpoint m a => exact (hnone m a).symm

end Occasion

namespace Observer

/-- The calls that are made on some occasions: on each of them, one to every observer in turn. -/
def calls (n : Nat) (occasions : List Occasion) : List (Fin n × Occasion) :=
  occasions.flatMap fun x ↦ (List.finRange n).map fun i ↦ (i, x)

/-- Those made to one observer. -/
def receivedBy {n : Nat} (i : Fin n) (calls : List (Fin n × Occasion)) : List Occasion :=
  (calls.filter fun c ↦ c.1 = i).map Prod.snd

/-- To tell observers is to make these calls. -/
theorem tell_eq_foldl_calls (observers : List (Observer σ)) (occasions : List Occasion)
    (notes : σ) :
    tell observers occasions notes = (calls observers.length occasions).foldl
      (fun notes c ↦ observers[c.1].hear c.2 notes) notes := by
  have hturn (x : Occasion) (notes : σ) : observers.foldl (fun notes o ↦ o.hear x notes) notes =
      (List.finRange observers.length).foldl (fun notes i ↦ observers[i].hear x notes) notes := by
    conv_lhs => rw [← List.map_get_finRange observers, List.foldl_map]
    rfl
  induction occasions generalizing notes with
  | nil => rfl
  | cons x occasions ih =>
    rw [calls, List.flatMap_cons, List.foldl_append, List.foldl_map, ← hturn]
    exact ih _

theorem receivedBy_append {n : Nat} (i : Fin n) (before after : List (Fin n × Occasion)) :
    receivedBy i (before ++ after) = receivedBy i before ++ receivedBy i after := by
  rw [receivedBy, List.filter_append, List.map_append]
  rfl

/-- Every observer receives all of it. -/
theorem receivedBy_calls {n : Nat} (i : Fin n) (occasions : List Occasion) :
    receivedBy i (calls n occasions) = occasions := by
  induction occasions with
  | nil => rfl
  | cons x occasions ih =>
    have hone : receivedBy i ((List.finRange n).map fun j ↦ (j, x)) = [x] := by
      rw [receivedBy, List.filter_map, List.map_map]
      show List.map _ ((List.finRange n).filter fun j ↦ j = i) = [x]
      rw [List.filter_eq, List.count_finRange]
      rfl
    rw [calls, List.flatMap_cons, receivedBy_append, hone]
    exact congrArg (x :: ·) ih

end Observer

/-! ## What there is to tell of a run -/

namespace Machine

variable {m m' : Machine} {total : Nat}

/-- The machine after a step, if there is one. -/
def visitedIn (m : Machine) : Happening → List Machine
  | .step => [m.step.state]
  | .keys _ => []

/-- The machine after each of its steps. -/
def visited (m : Machine) (run : List Happening) : List Machine := outputs after visitedIn m run

/-- What there is to tell of a step, if there is one and it does not fail. -/
def occasionsOf (m : Machine) : Happening → List Occasion
  | .step => m.stepOccasions m.step.state
  | .keys _ => []

/-- What there is to tell of its steps, if none fails, wherever they have led. -/
def occasionsIn (m : Machine) (run : List Happening) : List Occasion :=
  outputs after occasionsOf m run

theorem occasionsIn_cons (m : Machine) (x : Happening) (run : List Happening) :
    m.occasionsIn (x :: run) = m.occasionsOf x ++ (m.after x).occasionsIn run := rfl

theorem occasionsIn_append (m : Machine) (run run' : List Happening) :
    m.occasionsIn (run ++ run') = m.occasionsIn run ++ (run.foldl after m).occasionsIn run' :=
  outputs_append occasionsOf m run run'

/-- Every step is told once. -/
theorem filterMap_step?_occasionsIn (m : Machine) (run : List Happening) :
    (m.occasionsIn run).filterMap Occasion.step? = m.visited run := by
  have hone (m : Machine) (x : Happening) :
      (m.occasionsOf x).filterMap Occasion.step? = m.visitedIn x := by
    cases x with
    | step =>
      rw [occasionsOf, stepOccasions]
      split <;> rfl
    | keys event => rfl
  rw [occasionsIn, filterMap_outputs, visited, funext₂ hone]

/-- If no step fails, that is what is told, but for breakpoints. -/
theorem filter_told (t : Breakpoints) {run : List Happening}
    (h : m.through run = ⟨.ok total, m'⟩) :
    (m.told t run).filter Occasion.isUnconditional = m.occasionsIn run := by
  induction run generalizing m total with
  | nil => rfl
  | cons x run ih =>
    rw [told_cons, List.filter_append, occasionsIn_cons]
    cases x with
    | step =>
      obtain ⟨c, m₁, rest, hs, hrest, -⟩ := through_step_eq_ok.1 h
      have hstate : m.after .step = m₁ := congrArg Outcome.state hs
      have hone : (m.toldIn t .step).filter Occasion.isUnconditional = m.occasionsOf .step := by
        simp only [toldIn, occasionsOf, hs, stepOccasions]
        split <;> split <;> rfl
      rw [hone, hstate, ih hrest]
    | keys event => exact ih (m := m.applyKeys event) h

/-! ## The boot ROM goes once -/

theorem bootRomMapped_applyKeys (m : Machine) (event : InputEvent) :
    (m.applyKeys event).bus.bootRomMapped = m.bus.bootRomMapped :=
  congrArg Option.isSome (SystemBus.applyKeys_changesOnly m.bus event).bootRom_eq

/-- Whatever happens, the boot ROM is not mapped again. -/
theorem bootRomMapped_foldl_after (h : m.bus.bootRomMapped = false) (run : List Happening) :
    (run.foldl after m).bus.bootRomMapped = false := by
  rw [SystemBus.bootRomMapped, Option.isSome_eq_false_iff, Option.isNone_iff_eq_none] at h ⊢
  have hrun := bootRom_run_of_none h (run.map Act.happening)
  rw [List.foldl_map] at hrun
  exact hrun

/-- If at the end it is mapped as it was at first, there is nothing to tell of it. -/
theorem filterMap_bootRomUnmapped?_occasionsIn {run : List Happening}
    (h : (run.foldl after m).bus.bootRomMapped = m.bus.bootRomMapped) :
    (m.occasionsIn run).filterMap Occasion.bootRomUnmapped? = [] := by
  induction run generalizing m with
  | nil => rfl
  | cons x run ih =>
    rw [List.foldl_cons] at h
    cases x with
    | step =>
      have hkept : m.step.state.bus.bootRomMapped = m.bus.bootRomMapped := by
        cases hnext : m.step.state.bus.bootRomMapped with
        | false => exact (bootRomMapped_foldl_after hnext run).symm.trans h
        | true =>
          cases hfirst : m.bus.bootRomMapped with
          | false => exact hnext ▸ bootRomMapped_foldl_after hfirst [.step]
          | true => rfl
      have hlater := ih (m := m.step.state) (h.trans hkept.symm)
      have hnone : (m.occasionsOf .step).filterMap Occasion.bootRomUnmapped? = [] := by
        rw [occasionsOf, stepOccasions, hkept, Bool.and_not_self]
        rfl
      rw [occasionsIn_cons, List.filterMap_append, hnone]
      exact hlater
    | keys event => exact ih (h.trans (m.bootRomMapped_applyKeys event).symm)

/-- **If it goes, it goes in one of the steps**, by induction along the run: that is the first step
after which it is not mapped. -/
theorem exists_step_unmapping {run : List Happening} (hfirst : m.bus.bootRomMapped = true)
    (hlast : (run.foldl after m).bus.bootRomMapped = false) :
    ∃ before rest, run = before ++ .step :: rest ∧
      (before.foldl after m).bus.bootRomMapped = true ∧
      (before.foldl after m).step.state.bus.bootRomMapped = false := by
  induction run generalizing m with
  | nil => cases hfirst.symm.trans hlast
  | cons x run ih =>
    have hlater (hnext : (m.after x).bus.bootRomMapped = true) : ∃ before rest,
        x :: run = before ++ .step :: rest ∧ (before.foldl after m).bus.bootRomMapped = true ∧
          (before.foldl after m).step.state.bus.bootRomMapped = false := by
      obtain ⟨before, rest, rfl, hbefore, hgone⟩ := ih hnext hlast
      exact ⟨x :: before, rest, rfl, hbefore, hgone⟩
    cases x with
    | step =>
      cases hnext : m.step.state.bus.bootRomMapped with
      | false => exact ⟨[], run, rfl, hfirst, hnext⟩
      | true => exact hlater hnext
    | keys event => exact hlater ((m.bootRomMapped_applyKeys event).trans hfirst)

/-- What there is to tell then: of the boot ROM once, and right after that step. -/
theorem occasionsIn_unmapping {before : List Happening} (rest : List Happening)
    (hbefore : (before.foldl after m).bus.bootRomMapped = true)
    (hgone : (before.foldl after m).step.state.bus.bootRomMapped = false) :
    m.occasionsIn (before ++ .step :: rest) =
        m.occasionsIn before ++ .step (before.foldl after m).step.state ::
          .bootRomUnmapped (before.foldl after m).step.state ::
            (before.foldl after m).step.state.occasionsIn rest ∧
      (m.occasionsIn (before ++ .step :: rest)).filterMap Occasion.bootRomUnmapped? =
        [(before.foldl after m).step.state] := by
  have hfirst : m.bus.bootRomMapped = true := by
    cases hfirst : m.bus.bootRomMapped with
    | false => exact hbefore ▸ (bootRomMapped_foldl_after hfirst before).symm
    | true => rfl
  have htold : m.occasionsIn (before ++ .step :: rest) =
      m.occasionsIn before ++ .step (before.foldl after m).step.state ::
        .bootRomUnmapped (before.foldl after m).step.state ::
          (before.foldl after m).step.state.occasionsIn rest := by
    rw [occasionsIn_append, occasionsIn_cons, occasionsOf, stepOccasions, hbefore, hgone]
    rfl
  refine ⟨htold, ?_⟩
  have hnone := filterMap_bootRomUnmapped?_occasionsIn (hbefore.trans hfirst.symm)
  have hnone' := filterMap_bootRomUnmapped?_occasionsIn
    ((bootRomMapped_foldl_after hgone rest).trans hgone.symm)
  rw [htold, List.filterMap_append, hnone]
  exact congrArg ((before.foldl after m).step.state :: ·) hnone'

/-! ## Runs of key events and of steps -/

theorem through_keys (m : Machine) (events : List InputEvent) (run : List Happening) :
    m.through (events.map .keys ++ run) = (events.foldl applyKeys m).through run := by
  induction events generalizing m with
  | nil => rfl
  | cons event events ih => exact ih (m.applyKeys event)

theorem through_of_steps {k : Nat} (h : m.steps k = ⟨.ok total, m'⟩) :
    m.through (List.replicate k .step) = ⟨.ok total, m'⟩ := by
  induction k generalizing m' total with
  | zero => exact h
  | succ k ih =>
    obtain ⟨t, m₁, c, hbefore, hs, rfl⟩ := steps_succ_eq_ok.1 h
    rw [List.replicate_succ', through_append_eq_ok]
    exact ⟨t, m₁, c, ih hbefore, through_step_eq_ok.2 ⟨c, m', 0, hs, rfl, rfl⟩, rfl⟩

end Machine

/-! ## Ticks that succeed -/

namespace Emulator

variable {e e' : Emulator σ} {dt : Nat} {report : TickReport} {reports : List TickReport}

/-- The step that has been asked for decides how a tick ends while execution waits. -/
theorem answer_tickWaiting (h : e.debugger.stepRequested = true) :
    e.tickWaiting.answer = e.machine.step.answer.map fun cycles ↦ { cyclesRun := cycles } := by
  have hstep : (e.served.step e.observers).answer = e.machine.step.answer :=
    e.served.step_answer e.observers
  rw [← hstep]
  obtain ⟨⟨machine, ⟨breakpoints, singleStep, requested, history⟩, notes, journal⟩, policy,
    observers, input, debt, meter⟩ := e
  cases h
  rw [tickWaiting, served]
  simp only [Debugger.takeRequest, if_true]
  split <;> rename_i hs <;> rw [hs] <;> rfl

/-- If it ends well, so has the step. -/
theorem steps_of_tickWaiting (h : e.tickWaiting = ⟨.ok report, e'⟩) :
    e.machine.steps e.debugger.openRequests = ⟨.ok report.cyclesRun, e'.machine⟩ := by
  cases hr : e.debugger.stepRequested with
  | false =>
    rw [tickWaiting_of_not_requested hr] at h
    cases h
    rw [Debugger.openRequests_of_not_requested hr]
    rfl
  | true =>
    have hanswer := answer_tickWaiting hr
    have hmachine := (goes_tickWaiting e).machine_eq
    rw [Debugger.openRequests_of_requested hr] at hmachine ⊢
    rw [h] at hanswer hmachine
    rcases hs : e.machine.step with ⟨error | c, m⟩
    · rw [hs] at hanswer
      cases hanswer
    · rw [hs] at hanswer
      obtain rfl : report = { cyclesRun := c } := Except.ok.inj hanswer
      obtain rfl : e'.machine = m := hmachine.trans (congrArg Outcome.state hs)
      exact Machine.steps_succ_eq_ok.2 ⟨0, e.machine, c, rfl, hs, (Nat.zero_add c).symm⟩

/-- **In a tick that succeeds no step fails**, and its report has the cycles of its steps. -/
theorem through_tick (h : e.tick dt = ⟨.ok report, e'⟩) :
    e.machine.through (e.happeningsIn (.act (.tick dt))) = ⟨.ok report.cyclesRun, e'.machine⟩ := by
  have hsteps : e.pollInput.machine.steps (e.stepsIn (.tick dt)) =
      ⟨.ok report.cyclesRun, e'.machine⟩ := by
    cases hw : e.debugger.singleStep with
    | true =>
      rw [tick_of_waiting hw] at h
      rw [stepsIn_of_waiting hw, ← pollInput_debugger]
      exact steps_of_tickWaiting h
    | false =>
      obtain ⟨k, hk, hsteps, -⟩ := breakpoints_of_tick hw h
      exact hk ▸ hsteps
  have hpolled : e.pollInput.machine = e.waiting.foldl Machine.applyKeys e.machine := by
    rw [pollInput_toWatched]
    rfl
  rw [happeningsIn, Machine.through_keys, ← hpolled]
  exact Machine.through_of_steps hsteps

/-- How it ends when a host lets an emulator tick. -/
def answersIn (e : Emulator σ) : HostAct → List (Except MachineError TickReport)
  | .act (.tick dt) => [(e.tick dt).answer]
  | .act (.call _) => []
  | .push _ => []

/-- How the ticks of a host end. -/
def answers (e : Emulator σ) (run : List HostAct) : List (Except MachineError TickReport) :=
  outputs afterHost answersIn e run

/-- What happens and what is told while a host does things, if its ticks succeed: no step fails,
and but for breakpoints the observers are told of the steps. -/
theorem through_afterAll {run : List HostAct} (ok : e.answers run = reports.map .ok) :
    e.machine.through (e.happenings run) =
        ⟨.ok (cyclesRun reports), (e.afterAll run).machine⟩ ∧
      (e.told run).filter Occasion.isUnconditional = e.machine.occasionsIn (e.happenings run) := by
  induction run generalizing e reports with
  | nil =>
    obtain rfl : reports = [] := List.map_eq_nil_iff.1 ok.symm
    exact ⟨rfl, rfl⟩
  | cons x run ih =>
    cases x with
    | push event => exact ih (e := e.afterHost (.push event)) ok
    | act a =>
      cases a with
      | call c => exact ih (e := e.afterHost (.act (.call c))) ok
      | tick dt =>
        obtain ⟨report, rest, rfl, hreport, hrest⟩ := List.map_eq_cons_iff.1 ok.symm
        have hfirst := through_tick (Outcome.eq_ok_of_answer hreport.symm)
        obtain ⟨hthrough, htold⟩ := ih hrest.symm
        have hstate : (e.happeningsIn (.act (.tick dt))).foldl Machine.after e.machine =
            (e.tick dt).state.machine := (goes_tick e dt).machine_eq.symm
        refine ⟨?_, ?_⟩
        · rw [happenings_cons, Machine.through_append_eq_ok]
          exact ⟨_, _, _, hfirst, hthrough, List.sum_cons⟩
        · rw [told_cons, List.filter_append, toldIn, Machine.filter_told _ hfirst, htold,
            happenings_cons, Machine.occasionsIn_append, hstate]
          rfl

/-- **Observers miss nothing.**  Let a host do anything with an emulator, so that all its ticks
succeed.  Then no step has failed, and the notes are what comes of certain calls to the observers,
such that each observer has been called exactly once for each step that the machine has made, with
the machine after that step.  If the boot ROM was mapped at first and is not any more, each of them
has been told of it exactly once, right after it was told of the step in which that came about.
Otherwise none has been told anything of the kind. -/
theorem observers_of_run (e : Emulator σ) (run : List HostAct)
    (ok : e.answers run = reports.map .ok) :
    e.machine.through (e.happenings run) =
        ⟨.ok (cyclesRun reports), (e.afterAll run).machine⟩ ∧
      (e.afterAll run).notes = (Observer.calls e.observers.length (e.told run)).foldl
        (fun notes c ↦ e.observers[c.1].hear c.2 notes) e.notes ∧
      ∀ (i : Fin e.observers.length) (received : List Occasion),
        Observer.receivedBy i (Observer.calls e.observers.length (e.told run)) = received →
        received.filterMap Occasion.step? = e.machine.visited (e.happenings run) ∧
        (e.machine.bus.bootRomMapped = true → (e.afterAll run).machine.bus.bootRomMapped = false →
          ∃ before rest m m', e.happenings run = before ++ .step :: rest ∧
            before.foldl Machine.after e.machine = m ∧ m.step.state = m' ∧
            m.bus.bootRomMapped = true ∧ m'.bus.bootRomMapped = false ∧
            received.filter Occasion.isUnconditional =
              e.machine.occasionsIn before ++ .step m' :: .bootRomUnmapped m' ::
                m'.occasionsIn rest ∧
            received.filterMap Occasion.bootRomUnmapped? = [m']) ∧
        (¬(e.machine.bus.bootRomMapped = true ∧
            (e.afterAll run).machine.bus.bootRomMapped = false) →
          received.filterMap Occasion.bootRomUnmapped? = []) := by
  obtain ⟨hmachine, -, hnotes, -⟩ := reaches_afterAll e run
  obtain ⟨hthrough, htold⟩ := through_afterAll ok
  refine ⟨hthrough, hnotes.trans (Observer.tell_eq_foldl_calls _ _ _), ?_⟩
  rintro i received hreceived
  obtain rfl : e.told run = received := (Observer.receivedBy_calls i _).symm.trans hreceived
  rw [hmachine]
  refine ⟨?_, fun hfirst hlast ↦ ?_, fun hnot ↦ ?_⟩
  · rw [← Occasion.filterMap_filter (fun _ _ ↦ rfl), htold, Machine.filterMap_step?_occasionsIn]
  · obtain ⟨before, rest, hrun, hbefore, hgone⟩ := Machine.exists_step_unmapping hfirst hlast
    obtain ⟨hall, hone⟩ := Machine.occasionsIn_unmapping rest hbefore hgone
    refine ⟨before, rest, _, _, hrun, rfl, rfl, hbefore, hgone, ?_, ?_⟩
    · rw [htold, hrun, hall]
    · rw [← Occasion.filterMap_filter (fun _ _ ↦ rfl), htold, hrun, hone]
  · rw [← Occasion.filterMap_filter (fun _ _ ↦ rfl), htold]
    refine Machine.filterMap_bootRomUnmapped?_occasionsIn ?_
    cases hfirst : e.machine.bus.bootRomMapped with
    | false => exact Machine.bootRomMapped_foldl_after hfirst _
    | true => exact Bool.of_not_eq_false fun hlast ↦ hnot ⟨hfirst, hlast⟩

/-! ## One step after another -/

theorem pollInput_of_no_input (hinput : e.input = none) : e.pollInput = e := by
  obtain ⟨watched, policy, observers, input, debt, meter⟩ := e
  cases hinput
  rfl

/-- While execution waits, a tick succeeds if the step does that has been asked for. -/
theorem answers_stepByStep {k total : Nat} {m : Machine} (hwaits : e.debugger.singleStep = true)
    (hinput : e.input = none)
    (h : e.machine.through (List.replicate k .step) = ⟨.ok total, m⟩) :
    ∃ reports : List TickReport, e.answers (stepByStep k) = reports.map .ok := by
  induction k generalizing e total with
  | zero => exact ⟨[], rfl⟩
  | succ k ih =>
    obtain ⟨hone, hwaits', hinput'⟩ := waits_stepByStep hwaits hinput
    obtain ⟨c, m₁, rest, hs, hrest, -⟩ := Machine.through_step_eq_ok.1 h
    have hmachine : ((e.after (.call .requestStep)).after (.tick 0)).machine = m₁ := by
      have hgoes := (goes_tick (e.after (.call .requestStep)) 0).machine_eq
      rw [happeningsIn] at hone
      rw [hone] at hgoes
      exact hgoes.trans (congrArg Outcome.state hs)
    have hanswer : ((e.after (.call .requestStep)).tick 0).answer = .ok { cyclesRun := c } := by
      have hinput : (e.after (.call .requestStep)).input = none := hinput
      have hwaits : (e.after (.call .requestStep)).debugger.singleStep = true := hwaits
      have hs : (e.after (.call .requestStep)).machine.step = ⟨.ok c, m₁⟩ := hs
      rw [tick_of_waiting hwaits, pollInput_of_no_input hinput, answer_tickWaiting rfl, hs]
      rfl
    obtain ⟨reports, hreports⟩ := ih hwaits' hinput' (hmachine ▸ hrest)
    exact ⟨{ cyclesRun := c } :: reports, congrArg₂ List.cons hanswer hreports⟩

end Emulator

/-! ## A boot program that ends itself -/

namespace Machine

/-- An instruction succeeds if it does not leave tall sprites for the picture unit to draw. -/
theorem exists_step_of_execute {m : Machine} {i : Instruction} (h : m.core.nextAction = .execute i)
    (hdrawable : ¬(m.core.run i).bus.lcdControl.TallSprites) :
    ∃ m', m.step = ⟨.ok (i.cycles (i.isTaken m.cpu.regs.flags)), m'⟩ := by
  have hcore := Core.step_of_execute h
  obtain ⟨m', hcaught⟩ : ∃ m', catchUp
      { m with cpu := (m.core.run i).cpu, bus := (m.core.run i).bus }
      (i.cycles (i.isTaken m.cpu.regs.flags)) = ⟨.ok (), m'⟩ :=
    ⟨_, catchUp_eq_ok.2
      ⟨_, Scan.tick_eq_ok (s := ⟨m.ppu, (m.core.run i).bus⟩) hdrawable _, rfl⟩⟩
  exact ⟨m', step_eq_ok.2 ⟨by rw [hcore]; rfl, by rw [hcore]; exact hcaught⟩⟩

/-- The program stores a one to the register of the boot ROM, in its second step. -/
theorem steps_unmapping : ∃ m m₁ m₂,
    assemble (some (storeProgram 1 0x50).bytes) none = .ok m ∧
      m.step = ⟨.ok 8, m₁⟩ ∧ m₁.step = ⟨.ok 12, m₂⟩ ∧ m.bus.bootRomMapped = true ∧
        m₁.bus.bootRomMapped = true ∧ m₂.bus.bootRomMapped = false := by
  obtain ⟨m, hm⟩ := exists_assemble_boot (storeProgram 1 0x50)
  have h₀ := InBootProgram.of_assemble hm
  have hload : Instruction.fetch? m.bus m.cpu.regs.pc = some (.loadByte .a 1) :=
    h₀.fetch_eq (by decide) (by
      simp only [storeProgram_read]
      show Instruction.decode 0x3E 1 0xE0 = _
      rfl)
  obtain ⟨m₁, -, hs₁, -, -, -, -, h₁⟩ := h₀.step hload (c := 8) rfl (h₀.run_load 1)
  have hstore : Instruction.fetch? m₁.bus m₁.cpu.regs.pc = some (.storeHigh 0x50) :=
    h₁.fetch_eq (by decide) (by
      simp only [storeProgram_read]
      show Instruction.decode 0xE0 0x50 0 = _
      rfl)
  have hnext := h₁.nextAction_eq hstore
  have hstores : m₁.core.stores = [(IoRegister.bootOff.address, 1)] := by
    rw [Core.stores_execute hnext, ← h₁.a_eq]
    rfl
  have hdrawable : ¬(m₁.core.run (.storeHigh 0x50)).bus.lcdControl.TallSprites := by
    have hcontrol : (m₁.core.run (.storeHigh 0x50)).bus.lcdControl = m₁.bus.lcdControl :=
      congrArg LcdControl.ofByte (SystemBus.get_write_of_ne m₁.bus _ (by decide))
    rw [hcontrol]
    exact h₁.drawable
  obtain ⟨m₂, hs₂⟩ := exists_step_of_execute hnext hdrawable
  refine ⟨m, m₁, m₂, hm, hs₁, hs₂, ?_, ?_, ?_⟩
  · rw [SystemBus.bootRomMapped, h₀.bootRom_eq]
    rfl
  · rw [SystemBus.bootRomMapped, h₁.bootRom_eq]
    rfl
  · have hoff : SystemBus.SwitchesBootOff (m₁.runStores [.happening .step]) := by
      refine ⟨1, by decide, List.mem_append_left _ ?_⟩
      rw [actStores, hstores]
      exact List.mem_cons_self
    have hnone := bootRom_run_of_switches hoff
    have hstate : m₁.step.state = m₂ := congrArg Outcome.state hs₂
    rw [SystemBus.bootRomMapped, ← hstate]
    exact congrArg Option.isSome hnone

end Machine

namespace Emulator

/-- A machine that waits, watched by an observer that writes everything down. -/
def recording (m : Machine) : Emulator (List Occasion) :=
  ⟨{ machine := m, debugger := { singleStep := true }, notes := [] }, slowClock, [recorder], none,
    0, {}⟩

/-- It is told of two steps, and of the boot ROM after the second one. -/
theorem observers_of_run_unmapping :
    ∃ m m₁ m₂, Machine.assemble (some (Machine.storeProgram 1 0x50).bytes) none = .ok m ∧
      m.step = ⟨.ok 8, m₁⟩ ∧ m₁.step = ⟨.ok 12, m₂⟩ ∧
      ((recording m).afterAll (stepByStep 2)).machine = m₂ ∧
      ((recording m).told (stepByStep 2)).filterMap Occasion.step? = [m₁, m₂] ∧
      ((recording m).told (stepByStep 2)).filterMap Occasion.bootRomUnmapped? = [m₂] := by
  obtain ⟨m, m₁, m₂, hm, hs₁, hs₂, hfirst, hstill, hgone⟩ := Machine.steps_unmapping
  have hstate₁ : m.step.state = m₁ := congrArg Outcome.state hs₁
  have hstate₂ : m₁.step.state = m₂ := congrArg Outcome.state hs₂
  have hsteps : m.through (List.replicate 2 .step) = ⟨.ok 20, m₂⟩ :=
    Machine.through_step_eq_ok.2 ⟨8, m₁, 12, hs₁,
      Machine.through_step_eq_ok.2 ⟨12, m₂, 0, hs₂, rfl, rfl⟩, rfl⟩
  obtain ⟨reports, ok⟩ := answers_stepByStep (e := recording m) rfl rfl hsteps
  have hhappenings : (recording m).happenings (stepByStep 2) = [.step, .step] :=
    happenings_stepByStep rfl rfl 2
  obtain ⟨hthrough, -, hreceived⟩ := observers_of_run (recording m) (stepByStep 2) ok
  obtain ⟨hvisited, hunmapped, -⟩ := hreceived ⟨0, Nat.one_pos⟩ _ (Observer.receivedBy_calls _ _)
  rw [hhappenings] at hthrough hvisited hunmapped
  have hlast : ((recording m).afterAll (stepByStep 2)).machine = m₂ :=
    congrArg Outcome.state (hthrough.symm.trans hsteps)
  obtain ⟨before, rest, n, n', hsplit, rfl, rfl, hn, hn', -, hone⟩ :=
    hunmapped hfirst (hlast ▸ hgone)
  refine ⟨m, m₁, m₂, hm, hs₁, hs₂, hlast, ?_, ?_⟩
  · rw [hvisited]
    show [m.step.state, m.step.state.step.state] = [m₁, m₂]
    rw [hstate₁, hstate₂]
  · rcases before with _ | ⟨x, _ | ⟨y, before⟩⟩
    · have hgone : m.step.state.bus.bootRomMapped = false := hn'
      rw [hstate₁, hstill] at hgone
      cases hgone
    · obtain rfl : .step = x := (List.cons.inj hsplit).1
      have hone : _ = [m.step.state.step.state] := hone
      rw [hone, hstate₁, hstate₂]
    · have hlength := congrArg List.length hsplit
      simp at hlength

end Emulator
end Handheld
