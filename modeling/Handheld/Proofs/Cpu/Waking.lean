import Handheld.Proofs.Cpu.ProgramCounter
import Handheld.Proofs.Cpu.Reentry
import Handheld.Proofs.Machine.UndefinedOpcode

/-!
# A halt costs nothing once there is something to wake for

A processor that has halted sleeps until an interrupt is requested and enabled.  The step on which it
finds one is not lost: it wakes and goes on at once, and the step is in everything what it would have
been had it never slept.  That holds whether interrupts are let in or not, so whether it goes to a
handler or on with its program, and if the program fails there it fails in the same way.

Two facts carry this.  What the next step is going to do does not depend on the halt, if something is
pending (`Core.nextAction_awake_of_halted`).  And there is a single action that leaves the state of
sleep as it is, which is to stay asleep; all others give the same whether the processor sleeps or not
(`Core.perform_awake`).

Until then a step leaves everything as it is, which no step of a processor that is awake does in four
cycles and ends halted.  So the halt is seen exactly while nothing is pending
(`Core.step_of_halted_iff`).
-/

set_option autoImplicit false

namespace Handheld
namespace Core

variable {β : Type} [Bus β] {s : Core β}

/-! ## The action -/

/-- A halted processor that finds something pending goes to a handler if interrupts are let in, and
on with its program if they are not. -/
theorem nextAction_of_woken (hr : s.cpu.runState = .halted) (hp : s.pending ≠ 0) :
    (s.cpu.interruptsEnabled = true ∧ ∃ source, s.nextAction = .dispatch source) ∨
      (s.cpu.interruptsEnabled = false ∧ s.nextAction = s.fetchAction) := by
  cases hon : s.cpu.interruptsEnabled with
  | true =>
    obtain ⟨source, hsource⟩ := Option.ne_none_iff_exists'.1 (mt first?_pending_eq_none_iff.1 hp)
    exact Or.inl ⟨rfl, source, nextAction_eq_dispatch_iff.2 ⟨hon, hsource⟩⟩
  | false =>
    have hno : ¬s.Interrupted := fun h ↦ Bool.noConfusion (hon.symm.trans h.1)
    exact Or.inr ⟨rfl, (nextAction_of_halted hr hno).trans (if_neg hp)⟩

/-- That is what it would do if it were awake. -/
theorem nextAction_awake_of_halted (hr : s.cpu.runState = .halted) (hp : s.pending ≠ 0) :
    s.awake.nextAction = s.nextAction := by
  rcases nextAction_of_woken hr hp with ⟨-, source, hserved⟩ | ⟨hoff, hfetch⟩
  · obtain ⟨hon, hsource⟩ := nextAction_eq_dispatch_iff.1 hserved
    have hawake : s.awake.nextAction = .dispatch source :=
      nextAction_eq_dispatch_iff.2 ⟨hon, hsource⟩
    rw [hserved, hawake]
  · rw [hfetch, nextAction_of_disabled (s := s.awake) hoff rfl, fetchAction_awake]

/-- A halted processor stays asleep exactly while nothing is pending. -/
theorem nextAction_eq_idle_iff (hr : s.cpu.runState = .halted) :
    s.nextAction = .idle ↔ s.pending = 0 := by
  constructor
  · intro hidle
    by_contra hp
    rw [← nextAction_awake_of_halted hr hp] at hidle
    exact runState_of_nextAction (Or.inl hidle) rfl
  · intro hp
    rw [nextAction_of_halted hr fun h ↦ h.2 hp, if_pos hp]

/-- To stay asleep takes four cycles and changes nothing. -/
theorem step_of_idle (h : s.nextAction = .idle) : s.step = ⟨.ok 4, s⟩ := by
  rw [step, h]
  rfl

/-- **Only staying asleep shows that the processor has slept.** -/
theorem perform_awake (s : Core β) {a : Action} (ha : a ≠ .idle) :
    s.awake.perform a = s.perform a := by
  cases a with
  | idle => exact absurd rfl ha
  | _ => rfl

/-! ## The step -/

/-- No step of a processor that is awake leaves it halted where it was. -/
theorem step_awake_ne (hr : s.cpu.runState = .halted) (hp : s.pending = 0) :
    s.awake.step ≠ ⟨.ok 4, s⟩ := by
  intro hstep
  have hnext : s.awake.nextAction = s.fetchAction := by
    rw [nextAction_of_quiet (s := s.awake) (first?_pending_eq_none_iff.2 hp) rfl, fetchAction_awake]
  rcases fetchAction_cases s with ⟨i, hi⟩ | ⟨opcode, hop⟩
  · have hexecute : s.awake.nextAction = .execute i := hnext.trans hi
    -- the instruction leaves the processor halted, so it is `halt`, and has moved on behind itself
    have hstate : i.runStateAfter .running = .halted := by
      have hafter := step_execute_cpu hexecute
      rw [hstep] at hafter
      rw [← hr, hafter, settleEnable_runState]
      rfl
    have hhalt : i = .halt := by
      cases i <;> first | rfl | cases hstate
    have hpc := step_pc_of_not_isBranch hexecute (by rw [hhalt]; rfl)
    rw [hstep, hhalt] at hpc
    have hmoved : s.regs.pc + 1 = s.regs.pc := hpc.symm
    simp at hmoved
  · have hreject := step_eq_error_iff.2 ⟨opcode, hnext.trans hop, rfl, rfl⟩
    rw [hstep] at hreject
    cases hreject

/-- **A halt is seen exactly while nothing is pending.**  As soon as an interrupt is requested and
enabled, the step of a halted processor is that of the same processor awake: the same answer or
error, the same processor and the same bus after it, whether interrupts are let in or not and whether
there is a note of `ei` or not.  As long as none is, it takes four cycles and changes nothing. -/
theorem step_of_halted_iff (hr : s.cpu.runState = .halted) :
    (s.step = s.awake.step ↔ s.pending ≠ 0) ∧ (s.pending = 0 → s.step = ⟨.ok 4, s⟩) := by
  have hasleep (hp : s.pending = 0) : s.step = ⟨.ok 4, s⟩ :=
    step_of_idle ((nextAction_eq_idle_iff hr).2 hp)
  refine ⟨⟨fun hsame hp ↦ ?_, fun hp ↦ ?_⟩, hasleep⟩
  · exact step_awake_ne hr hp (hsame ▸ hasleep hp)
  · rw [step, step, nextAction_awake_of_halted hr hp,
      perform_awake s (mt (nextAction_eq_idle_iff hr).1 hp)]

/-- A processor that has halted in front of a byte that means nothing, with a note of `ei` and with
all interrupts enabled. -/
def haltedBefore (requests : UInt8) (letIn : Bool) : Core (UInt16 → UInt8) where
  cpu :=
    { regs := { pc := 0xC000 }, interruptsEnabled := letIn, enablePending := true
      runState := .halted }
  bus := fun a ↦
    if a = 0xC000 then 0xD3 else if a = interruptFlagAddress then requests
    else if a = interruptEnableAddress then 0x1F else 0

/-- With a request it fails on the byte or goes to the handler, as if it had been awake; without one
it sleeps on. -/
theorem step_of_halted_iff_haltedBefore :
    (haltedBefore 4 false).step = (haltedBefore 4 false).awake.step ∧
      (haltedBefore 4 false).step.answer = .error (.unknownOpcode 0xD3 0xC000) ∧
      (haltedBefore 4 true).step = (haltedBefore 4 true).awake.step ∧
      (haltedBefore 4 true).step.answer = .ok 20 ∧
      (haltedBefore 0 true).step = ⟨.ok 4, haltedBefore 0 true⟩ := by
  refine ⟨(step_of_halted_iff rfl).1.2 (by decide), rfl, (step_of_halted_iff rfl).1.2 (by decide),
    rfl, (step_of_halted_iff rfl).2 (by decide)⟩

end Core
end Handheld
