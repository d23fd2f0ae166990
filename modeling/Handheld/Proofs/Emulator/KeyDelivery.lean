import Handheld.Proofs.Emulator.Course

/-!
# Key events are delivered once and in order

A host pushes key events to the queue of an emulator, and lets it tick whenever it likes.  Every
tick begins with emptying the queue, before it is decided what else it does: it may wait, stand for
no time at all, or fail, and the events have been delivered all the same.

So which events a tick delivers depends on what the host has done and on nothing else, and can be
said without an emulator: those pushed since the tick before (`HostAct.batches`).  Together they are
all that has been pushed, but for what is left for the next tick (`HostAct.batches_append_left`).
`Emulator.delivers_afterAll` says that this is what reaches the machine: in each tick the batch of
that tick, and after it the steps.
-/

set_option autoImplicit false

namespace Handheld

variable {σ : Type}

/-! ## What is to be delivered -/

namespace HostAct

/-- The key events that a host pushes. -/
def pushed : List HostAct → List InputEvent
  | [] => []
  | .push event :: run => event :: pushed run
  | .act _ :: run => pushed run

/-- The key events that each tick has to deliver: those pushed since the tick before, and for the
first tick also those that were waiting. -/
def batches (waiting : List InputEvent) : List HostAct → List (List InputEvent)
  | [] => []
  | .push event :: run => batches (waiting ++ [event]) run
  | .act (.tick _) :: run => waiting :: batches [] run
  | .act (.call _) :: run => batches waiting run

/-- The key events that are left for a later tick. -/
def left (waiting : List InputEvent) : List HostAct → List InputEvent
  | [] => waiting
  | .push event :: run => left (waiting ++ [event]) run
  | .act (.tick _) :: run => left [] run
  | .act (.call _) :: run => left waiting run

/-- What is to be delivered and what is left is what was waiting and what has been pushed. -/
theorem batches_append_left (waiting : List InputEvent) (run : List HostAct) :
    (batches waiting run).flatten ++ left waiting run = waiting ++ pushed run := by
  induction run generalizing waiting with
  | nil => exact (List.append_nil waiting).symm
  | cons x run ih =>
    cases x with
    | push event =>
      rw [batches, left, pushed, ih, List.append_assoc]
      rfl
    | act a =>
      cases a with
      | tick dt =>
        rw [batches, left, pushed, List.flatten_cons, List.append_assoc, ih]
        rfl
      | call c => exact ih waiting

/-- The ticks to come deliver what is left, and nothing of what has been delivered. -/
theorem batches_append (waiting : List InputEvent) (run run' : List HostAct) :
    batches waiting (run ++ run') = batches waiting run ++ batches (left waiting run) run' := by
  induction run generalizing waiting with
  | nil => rfl
  | cons x run ih =>
    cases x with
    | push event => exact ih (waiting ++ [event])
    | act a =>
      cases a with
      | tick dt => exact congrArg (waiting :: ·) (ih [])
      | call c => exact ih waiting

/-- After a tick nothing is left, so by then everything has been delivered that was pushed before
it. -/
theorem flatten_batches_tick (waiting : List InputEvent) (run : List HostAct) (dt : Nat) :
    (batches waiting (run ++ [.act (.tick dt)])).flatten = waiting ++ pushed run := by
  rw [batches_append, List.flatten_append, ← batches_append_left]
  exact congrArg ((batches waiting run).flatten ++ ·) (List.append_nil _)

end HostAct

/-! ## What is delivered -/

namespace Machine

/-- The machine after some key events and then some steps, whether they fail or not. -/
def takesAndSteps (m : Machine) (keysAndSteps : List InputEvent × Nat) : Machine :=
  (fun m ↦ m.step.state)^[keysAndSteps.2] (keysAndSteps.1.foldl applyKeys m)

end Machine

namespace Emulator

/-- The number of steps that the machine makes in a tick. -/
def stepCountsIn (e : Emulator σ) : HostAct → List Nat
  | .act (.tick dt) => [e.stepsIn (.tick dt)]
  | .act (.call _) => []
  | .push _ => []

/-- The number of steps that the machine makes in each tick. -/
def stepCounts (e : Emulator σ) (run : List HostAct) : List Nat :=
  outputs afterHost stepCountsIn e run

/-- In each tick the machine takes the batch of that tick, and then makes its steps; the queue holds
what is left. -/
structure Delivers (e : Emulator σ) (waiting : List InputEvent) (run : List HostAct)
    (e' : Emulator σ) : Prop where
  machine_eq : e'.machine =
    ((HostAct.batches waiting run).zip (e.stepCounts run)).foldl Machine.takesAndSteps e.machine
  length_eq : (HostAct.batches waiting run).length = (e.stepCounts run).length
  left_eq : ∃ queue, e'.input = some queue ∧ queue.toList = HostAct.left waiting run

variable {e : Emulator σ} {queue : InputQueue}

/-- A tick takes all there is in the queue, and then makes its steps. -/
theorem takesAndSteps_tick (h : e.input = some queue) (dt : Nat) :
    (e.tick dt).state.machine =
        e.machine.takesAndSteps (queue.toList, e.stepsIn (.tick dt)) ∧
      (e.tick dt).state.input = some {} := by
  have hpolled : e.pollInput.machine = queue.toList.foldl Machine.applyKeys e.machine := by
    rw [pollInput_toWatched, waiting, h]
    rfl
  refine ⟨?_, ?_⟩
  · rw [machine_tick, hpolled]
    rfl
  · rw [(tick_kept e dt).2, h]
    rfl

/-- **Anything that a host does**, by induction on how much it is: a push makes the next batch
longer, and a tick delivers it. -/
theorem delivers_afterAll (h : e.input = some queue) (run : List HostAct) :
    e.Delivers queue.toList run (e.afterAll run) := by
  induction run generalizing e queue with
  | nil => exact ⟨rfl, rfl, queue, h, rfl⟩
  | cons x run ih =>
    cases x with
    | push event =>
      have hinput : (e.afterHost (.push event)).input = some (queue.push event) := by
        rw [afterHost, h]
        rfl
      have hrest := ih hinput
      rw [InputQueue.toList_push] at hrest
      exact ⟨hrest.machine_eq, hrest.length_eq, hrest.left_eq⟩
    | act a =>
      cases a with
      | tick dt =>
        obtain ⟨hmachine, hinput⟩ := takesAndSteps_tick h dt
        have hrest := ih (e := e.afterHost (.act (.tick dt))) hinput
        refine ⟨hrest.machine_eq.trans ?_, congrArg (· + 1) hrest.length_eq, hrest.left_eq⟩
        exact congrArg (List.foldl Machine.takesAndSteps · _) hmachine
      | call c =>
        have hrest := ih (e := e.afterHost (.act (.call c))) h
        exact ⟨hrest.machine_eq, hrest.length_eq, hrest.left_eq⟩

/-- **Key events are delivered once and in order.**  Let a host do anything with an emulator that
has a queue.  Then the machine is what comes of its ticks, one after another, if in each of them it
first takes the events pushed since the tick before, in order, and then makes a number of steps.
The events taken by all the ticks, and those still in the queue, are those that were in the queue at
first and those pushed since; and right after a tick, whatever came before it and whatever comes
after it, they are without exception the ones pushed before that tick. -/
theorem keys_of_run (h : e.input = some queue) (run : List HostAct) :
    (e.afterAll run).machine =
        ((HostAct.batches queue.toList run).zip (e.stepCounts run)).foldl
          Machine.takesAndSteps e.machine ∧
      (HostAct.batches queue.toList run).length = (e.stepCounts run).length ∧
      (∃ queue', (e.afterAll run).input = some queue' ∧
        (HostAct.batches queue.toList run).flatten ++ queue'.toList =
          queue.toList ++ HostAct.pushed run) ∧
      ∀ dt rest,
        HostAct.batches queue.toList (run ++ .act (.tick dt) :: rest) =
            HostAct.batches queue.toList (run ++ [.act (.tick dt)]) ++ HostAct.batches [] rest ∧
          (HostAct.batches queue.toList (run ++ [.act (.tick dt)])).flatten =
            queue.toList ++ HostAct.pushed run := by
  obtain ⟨hmachine, hlength, queue', hinput, hleft⟩ := delivers_afterAll h run
  refine ⟨hmachine, hlength, ⟨queue', hinput, ?_⟩, fun dt rest ↦ ⟨?_, ?_⟩⟩
  · rw [hleft, HostAct.batches_append_left]
  · rw [HostAct.batches_append, HostAct.batches_append, List.append_assoc]
    rfl
  · exact HostAct.flatten_batches_tick queue.toList run dt

/-- An emulator that waits, with an empty queue. -/
def paused (bus : SystemBus) : Emulator Unit :=
  ⟨{ machine := .restingOn bus, debugger := { singleStep := true }, notes := () }, slowClock, [],
    some {}, 0, {}⟩

/-- Left is pressed before a tick for which no step has been asked; it is released and pressed again
before one that makes a step, and a button is pressed after that. -/
def pausedRun : List HostAct :=
  [.push ⟨.directions, 2, true⟩, .act (.tick 7), .push ⟨.directions, 2, false⟩,
    .push ⟨.directions, 2, true⟩, .act (.call .requestStep), .act (.tick 0),
    .push ⟨.buttons, 1, true⟩]

theorem stepCounts_pausedRun (bus : SystemBus) : (paused bus).stepCounts pausedRun = [0, 1] := by
  have hnone : (((paused bus).afterHost (.push ⟨.directions, 2, true⟩)).stepsIn (.tick 7)) = 0 :=
    stepsIn_of_waiting rfl 7
  have hone : ((paused bus).afterAll [.push ⟨.directions, 2, true⟩, .act (.tick 7),
      .push ⟨.directions, 2, false⟩, .push ⟨.directions, 2, true⟩,
      .act (.call .requestStep)]).stepsIn (.tick 0) = 1 :=
    stepsIn_of_waiting rfl 0
  exact congrArg₂ (fun j k ↦ [j, k]) hnone hone

/-- The machine makes its step when left is down again, and the button is still in the queue. -/
theorem keys_of_run_paused :
    ∃ queue, (paused .blank).input = some queue ∧
      ((paused .blank).afterAll pausedRun).machine =
        ((((Machine.restingOn .blank).applyKeys ⟨.directions, 2, true⟩).applyKeys
          ⟨.directions, 2, false⟩).applyKeys ⟨.directions, 2, true⟩).step.state ∧
      ∃ queue', ((paused .blank).afterAll pausedRun).input = some queue' ∧
        queue'.toList = [⟨.buttons, 1, true⟩] := by
  have hqueue : (paused .blank).input = some {} := rfl
  obtain ⟨hmachine, -, ⟨queue', hinput, hleft⟩, -⟩ := keys_of_run hqueue pausedRun
  have hbatches : HostAct.batches [] pausedRun =
      [[⟨.directions, 2, true⟩], [⟨.directions, 2, false⟩, ⟨.directions, 2, true⟩]] := rfl
  have hpushed : HostAct.pushed pausedRun = [⟨.directions, 2, true⟩, ⟨.directions, 2, false⟩,
      ⟨.directions, 2, true⟩, ⟨.buttons, 1, true⟩] := rfl
  have hempty : InputQueue.toList {} = [] := rfl
  rw [hempty, hbatches] at hmachine hleft
  rw [stepCounts_pausedRun] at hmachine
  rw [hpushed] at hleft
  have hticks (m : Machine) :
      (([[⟨.directions, 2, true⟩], [⟨.directions, 2, false⟩, ⟨.directions, 2, true⟩]].zip
        [0, 1]).foldl Machine.takesAndSteps m) =
          (((m.applyKeys ⟨.directions, 2, true⟩).applyKeys ⟨.directions, 2, false⟩).applyKeys
            ⟨.directions, 2, true⟩).step.state := rfl
  exact ⟨{}, hqueue, hmachine.trans (hticks _), queue', hinput, by simpa using hleft⟩

end Emulator
end Handheld
