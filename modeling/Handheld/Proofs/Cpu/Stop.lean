import Handheld.Proofs.Cpu.Dispatch
import Mathlib.Tactic.ByContra

/-!
# How a stop ends

A processor that has stopped waits for a key: it sleeps until one of the four key lines in the
joypad register is low.  That is what a stop is for, but it is not all that ends one.  Interrupts
are looked at before anything else, whatever the processor is doing; so with interrupts let in, one
that is requested and enabled ends the stop as well, with every key line high
(`Core.not_always_stopped`).  It need not come from a key: the timer goes on while the processor is
stopped.

`Core.stop_of_run` is the exact rule.  A stop lasts as long as neither a key line is low nor an
interrupt comes, and while it lasts nothing about the processor changes; in particular interrupts
stay let in, or not, as they were when it began.  As for a handler that is entered again, the bus
may become any other between two steps.
-/

set_option autoImplicit false

namespace Handheld
namespace Core

variable {β : Type} [Bus β] {s : Core β}

/-- One of the four key lines in the joypad register is low. -/
def KeyLow (s : Core β) : Prop := s.read joypadAddress &&& 0x0F ≠ 0x0F

theorem not_keyLow_iff : ¬s.KeyLow ↔ s.read joypadAddress &&& 0x0F = 0x0F := Decidable.not_not

/-- An interrupt is requested, enabled and let in. -/
def Interrupted (s : Core β) : Prop := s.cpu.interruptsEnabled = true ∧ s.pending ≠ 0

/-- Neither a key nor an interrupt asks the processor to wake. -/
def Undisturbed (s : Core β) : Prop := ¬s.KeyLow ∧ ¬s.Interrupted

/-! ## One step -/

/-- An interrupt that comes is dispatched, the most urgent one if there are several. -/
theorem Interrupted.step_eq (h : s.Interrupted) :
    ∃ source, Interrupt.first? s.pending = some source ∧ s.step = ⟨.ok 20, s.dispatch source⟩ := by
  obtain ⟨hon, hp⟩ := h
  obtain ⟨source, hsource⟩ := Option.ne_none_iff_exists'.1 (mt first?_pending_eq_none_iff.1 hp)
  exact ⟨source, hsource, step_of_dispatch (nextAction_eq_dispatch_iff.2 ⟨hon, hsource⟩)⟩

/-- If none does, a processor that has stopped looks at the keys. -/
theorem nextAction_of_stopped (hs : s.cpu.runState = .stopped) (h : ¬s.Interrupted) :
    s.nextAction = s.stoppedAction := by
  rw [nextAction]
  split
  · rename_i source hsource hon
    refine absurd ⟨hon, fun hp ↦ ?_⟩ h
    rw [first?_pending_eq_none_iff.2 hp] at hsource
    cases hsource
  · rfl
  · rename_i hhalted
    rw [hs] at hhalted
    cases hhalted
  · contradiction

theorem Undisturbed.step_eq (hs : s.cpu.runState = .stopped) (h : s.Undisturbed) :
    s.step = ⟨.ok 4, s⟩ := by
  obtain ⟨hkey, hno⟩ := h
  rw [step, nextAction_of_stopped hs hno, stoppedAction, if_pos (not_keyLow_iff.1 hkey)]
  rfl

theorem KeyLow.step_eq (hs : s.cpu.runState = .stopped) (h : s.KeyLow) (hno : ¬s.Interrupted) :
    s.step = ⟨.ok 4, s.awake⟩ := by
  rw [step, nextAction_of_stopped hs hno, stoppedAction, if_neg h]
  rfl

/-- Anything that asks it to wake does so. -/
theorem running_step_iff (hs : s.cpu.runState = .stopped) :
    s.step.state.cpu.runState = .running ↔ s.KeyLow ∨ s.Interrupted := by
  constructor
  · intro hrunning
    by_contra hno
    rw [Undisturbed.step_eq hs (not_or.1 hno), hs] at hrunning
    cases hrunning
  · intro h
    by_cases hint : s.Interrupted
    · obtain ⟨source, -, hstep⟩ := hint.step_eq
      rw [hstep]
      rfl
    · rw [KeyLow.step_eq hs (h.resolve_right hint) hint]
      rfl

/-- So a processor that is still stopped after the step has not been asked. -/
theorem undisturbed_of_stopped_step (hs : s.cpu.runState = .stopped)
    (h : s.step.state.cpu.runState = .stopped) : s.Undisturbed := by
  refine not_or.1 fun hdisturbed ↦ ?_
  rw [(running_step_iff hs).2 hdisturbed] at h
  cases h

/-- How a processor that has stopped takes its next step. -/
structure StopStep (s : Core β) : Prop where
  /-- It stays as it is exactly when nothing asks it to wake. -/
  stays_iff : s.step = ⟨.ok 4, s⟩ ↔ s.Undisturbed
  /-- A key or an interrupt wakes it. -/
  running_iff : s.step.state.cpu.runState = .running ↔ s.KeyLow ∨ s.Interrupted
  /-- To wake is all that it does for a key. -/
  wakes : s.KeyLow → ¬s.Interrupted → s.step = ⟨.ok 4, s.awake⟩
  /-- For an interrupt it goes to the handler at once, key or no key. -/
  serves : s.Interrupted →
    ∃ source, Interrupt.first? s.pending = some source ∧ s.step = ⟨.ok 20, s.dispatch source⟩

theorem stopStep_of_stopped (hs : s.cpu.runState = .stopped) : s.StopStep := by
  refine ⟨⟨fun hstep ↦ ?_, Undisturbed.step_eq hs⟩, running_step_iff hs, KeyLow.step_eq hs,
    Interrupted.step_eq⟩
  exact undisturbed_of_stopped_step hs (by rw [hstep, hs])

/-! ## The stop as a whole -/

section Run

variable {run : Nat → Core β}

/-- Nothing about the processor changes while nothing asks it to wake. -/
theorem cpu_of_undisturbed (hnext : ∀ n, (run (n + 1)).cpu = (run n).step.state.cpu)
    (hstop : (run 0).cpu.runState = .stopped) {n : Nat} (h : ∀ k < n, (run k).Undisturbed) :
    (run n).cpu = (run 0).cpu := by
  induction n with
  | zero => rfl
  | succ n ih =>
    have hn := ih fun k hk ↦ h k (Nat.lt_succ_of_lt hk)
    rw [hnext, Undisturbed.step_eq (by rw [hn, hstop]) (h n n.lt_succ_self), hn]

/-- **How long a stop lasts, and how it ends.**  A processor that has stopped is still stopped at
moment `n`, without a break, exactly when no key line has been low and no interrupt has come before.
It is then as it was when it stopped, and its next step is one of three: it stays as it is if
nothing asks it to wake; a low key line wakes it; and an interrupt takes it to the handler, whether
a key line is low or not. -/
theorem stop_of_run (hnext : ∀ n, (run (n + 1)).cpu = (run n).step.state.cpu)
    (hstop : (run 0).cpu.runState = .stopped) (n : Nat) :
    ((∀ k ≤ n, (run k).cpu.runState = .stopped) ↔ ∀ k < n, (run k).Undisturbed) ∧
      ((∀ k < n, (run k).Undisturbed) → (run n).cpu = (run 0).cpu ∧ (run n).StopStep) := by
  have hcpu : ∀ k, (∀ l < k, (run l).Undisturbed) → (run k).cpu = (run 0).cpu :=
    fun k ↦ cpu_of_undisturbed hnext hstop
  refine ⟨⟨fun hstopped k hk ↦ ?_, fun hquiet k hk ↦ ?_⟩, fun hquiet ↦ ?_⟩
  · refine undisturbed_of_stopped_step (hstopped k (Nat.le_of_lt hk)) ?_
    rw [← hnext, hstopped (k + 1) hk]
  · rw [hcpu k fun l hl ↦ hquiet l (Nat.lt_of_lt_of_le hl hk), hstop]
  · have hn := hcpu n hquiet
    exact ⟨hn, stopStep_of_stopped (by rw [hn, hstop])⟩

end Run

/-! ## A stop that the timer ends -/

/-- A processor that has stopped with interrupts let in, all of them enabled and every key line
high; after each step the timer requests its interrupt. -/
def timedStop : Nat → Core SystemBus
  | 0 =>
    { cpu := { interruptsEnabled := true, runState := .stopped }
      bus := (SystemBus.blank.set .joypad 0xCF).set .interruptEnable 0x1F }
  | n + 1 =>
    let s := (timedStop n).step.state
    { s with bus := s.bus.request .timer }

theorem timedStop_succ (n : Nat) :
    timedStop (n + 1) =
      { (timedStop n).step.state with bus := (timedStop n).step.state.bus.request .timer } := rfl

theorem keyLow_iff {s : Core SystemBus} : s.KeyLow ↔ s.bus.get .joypad &&& 0x0F ≠ 0x0F := by
  have hread : s.read joypadAddress = s.bus.get .joypad :=
    s.bus.read_register (r := .joypad) (by decide)
  rw [KeyLow, hread]

theorem get_joypad_timedStop : (timedStop 0).bus.get .joypad = 0xCF := by
  rw [timedStop, SystemBus.get_set_of_ne _ _ (by decide), SystemBus.get_set_self]

theorem get_interruptEnable_timedStop : (timedStop 0).bus.get .interruptEnable = 0x1F :=
  SystemBus.get_set_self _ _ _

theorem get_interruptFlag_timedStop : (timedStop 0).bus.get .interruptFlag = 0 := by
  rw [timedStop, SystemBus.get_set_of_ne _ _ (by decide), SystemBus.get_set_of_ne _ _ (by decide)]
  exact SystemBus.isBlank_blank.peek_eq _

/-- At first nothing asks it to wake. -/
theorem undisturbed_timedStop : (timedStop 0).Undisturbed := by
  refine ⟨?_, fun ⟨_, hpending⟩ ↦ hpending ?_⟩
  · rw [keyLow_iff, get_joypad_timedStop]
    decide
  · rw [pending_eq, get_interruptFlag_timedStop, UInt8.and_zero, UInt8.zero_and]

theorem timedStop_one :
    timedStop 1 = { timedStop 0 with bus := (timedStop 0).bus.request .timer } := by
  rw [timedStop_succ 0, undisturbed_timedStop.step_eq rfl]

/-- Then the timer does, and still no key. -/
theorem timedStop_disturbed :
    ¬(timedStop 1).KeyLow ∧ (timedStop 1).pending = Interrupt.timer.mask := by
  rw [timedStop_one]
  refine ⟨?_, ?_⟩
  · rw [keyLow_iff, SystemBus.get_request_of_ne _ _ (by decide), get_joypad_timedStop]
    decide
  · rw [pending_eq, SystemBus.get_request_of_ne _ _ (by decide),
      SystemBus.get_interruptFlag_request, get_interruptEnable_timedStop,
      get_interruptFlag_timedStop]
    rfl

/-- **A stop does not always last until a key line is low.** -/
theorem not_always_stopped :
    ¬∀ s : Core SystemBus, s.cpu.runState = .stopped → s.read joypadAddress &&& 0x0F = 0x0F →
      s.step.answer = .ok 4 ∧ s.step.state.cpu.runState = .stopped := by
  intro h
  obtain ⟨hkey, hpending⟩ := timedStop_disturbed
  have hcpu : (timedStop 1).cpu = (timedStop 0).cpu := by rw [timedStop_one]
  obtain ⟨-, hstopped⟩ := h (timedStop 1) (by rw [hcpu]; rfl) (not_keyLow_iff.1 hkey)
  obtain ⟨source, -, hstep⟩ : ∃ source, Interrupt.first? (timedStop 1).pending = some source ∧
      (timedStop 1).step = ⟨.ok 20, (timedStop 1).dispatch source⟩ :=
    Interrupted.step_eq ⟨by rw [hcpu]; rfl, by rw [hpending]; decide⟩
  rw [hstep] at hstopped
  cases hstopped

/-- The stop lasts for one step, and the timer ends it in the next one. -/
theorem stop_of_run_timedStop :
    (timedStop 0).step = ⟨.ok 4, timedStop 0⟩ ∧ (timedStop 1).cpu.runState = .stopped ∧
      ¬(timedStop 1).KeyLow ∧ (timedStop 1).step = ⟨.ok 20, (timedStop 1).dispatch .timer⟩ := by
  obtain ⟨hkey, hpending⟩ := timedStop_disturbed
  have hnext : ∀ n, (timedStop (n + 1)).cpu = (timedStop n).step.state.cpu := fun _ ↦ rfl
  have hrun := stop_of_run hnext rfl
  obtain ⟨-, hfirst⟩ := (hrun 0).2 fun k hk ↦ absurd hk k.not_lt_zero
  have hquiet : ∀ k < 1, (timedStop k).Undisturbed := by
    intro k hk
    rw [Nat.lt_one_iff.1 hk]
    exact undisturbed_timedStop
  obtain ⟨hcpu, hsecond⟩ := (hrun 1).2 hquiet
  obtain ⟨source, hsource, hstep⟩ :=
    hsecond.serves ⟨by rw [hcpu]; rfl, by rw [hpending]; decide⟩
  rw [hpending] at hsource
  cases hsource
  exact ⟨hfirst.stays_iff.2 undisturbed_timedStop, (hrun 1).1.2 hquiet 1 (Nat.le_refl 1), hkey,
    hstep⟩

end Core
end Handheld
