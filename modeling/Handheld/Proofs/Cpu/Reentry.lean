import Handheld.Proofs.Cpu.Switches
import Mathlib.Order.Nat

/-!
# When a handler can be interrupted

A dispatch switches interrupts off, so that the handler it goes to is left alone until it lets them
in again, with `ei` or `reti`.  This file says when that is so.

It is not always so (`Core.not_always_protected`).  `ei` leaves a note for the instruction after it,
and a dispatch does not take the note away.  If `ei` is carried out while interrupts are let in
already, an interrupt can come right after it; the note is then still there when the handler begins,
and the first instruction of the handler acts on it.  `Core.handlerProtected_iff` is the exact
condition: a handler is protected unless there was a note at its dispatch and its first instruction
is one of those that do not decide about interrupts themselves.  The same theorem says when there is
a note: exactly after an `ei` with interrupts let in, with nothing but steps that failed in between.

A run is followed over all moments, and the bus may become any other between two of them, so nothing
is assumed about where requests come from.
-/

set_option autoImplicit false

namespace Handheld

/-- Interrupts are not let in, and no note says that they are to be. -/
def Cpu.Closed (cpu : Cpu) : Prop := cpu.interruptsEnabled = false ∧ cpu.enablePending = false

namespace Core

variable {β : Type} [Bus β] {s : Core β}

/-- The next step carries out an instruction that lets interrupts in. -/
def LetsIn (s : Core β) : Prop := s.nextAction = .execute .ei ∨ s.nextAction = .execute .reti

/-- The next step fails. -/
def Rejects (s : Core β) : Prop := ∃ opcode, s.nextAction = .reject opcode

/-- The processor of each moment is what the step before has left; the bus may have become any
other. -/
structure IsRun (run : Nat → Core β) : Prop where
  start : (∃ address vectors, (run 0).cpu = Cpu.startingAt address vectors) ∨
    (run 0).cpu = Cpu.postBoot
  next : ∀ n, (run (n + 1)).cpu = (run n).step.state.cpu

/-- From the dispatch at moment `n` on, interrupts stay off and none is dispatched until an
instruction has let them in. -/
def HandlerProtected (run : Nat → Core β) (n : Nat) : Prop :=
  ∀ m, n < m → (∀ k, n < k → k < m → ¬(run k).LetsIn) →
    (run m).cpu.interruptsEnabled = false ∧ ∀ source, (run m).nextAction ≠ .dispatch source

/-! ## One step -/

/-- A dispatch switches interrupts off and wakes the processor; a note stays. -/
theorem step_dispatch_switches {source : Interrupt} (h : s.nextAction = .dispatch source) :
    s.step.state.cpu.interruptsEnabled = false ∧
      s.step.state.cpu.enablePending = s.cpu.enablePending ∧
      s.step.state.cpu.runState = .running := by
  rw [step, h]
  exact ⟨rfl, rfl, rfl⟩

/-- A step that fails wakes the processor at most. -/
theorem Rejects.step_cpu (h : s.Rejects) :
    s.step.state.cpu = { s.cpu with runState := .running } := by
  obtain ⟨opcode, h⟩ := h
  rw [step, h]
  rfl

/-- The switches after an instruction, when there was no note before it. -/
theorem step_execute_switches {i : Instruction} (h : s.nextAction = .execute i)
    (hp : s.cpu.enablePending = false) :
    s.step.state.cpu.interruptsEnabled = i.enabledAfter s.cpu.interruptsEnabled ∧
      s.step.state.cpu.enablePending = i.pendingAfter false ∧
      s.step.state.cpu.runState = i.runStateAfter .running := by
  rw [step_execute_cpu h, hp]
  exact ⟨rfl, congrArg i.pendingAfter hp, rfl⟩

/-- An instruction acts on a note unless it decides about interrupts itself; either way no note is
left. -/
theorem step_execute_pending {i : Instruction} (h : s.nextAction = .execute i)
    (hp : s.cpu.enablePending = true) :
    s.step.state.cpu.enablePending = false ∧
      (i ≠ .di → s.step.state.cpu.interruptsEnabled = true) := by
  rw [step_execute_cpu h, hp, settleEnable]
  cases i with
  | di => exact ⟨rfl, fun h ↦ absurd rfl h⟩
  | reti => exact ⟨rfl, fun _ ↦ rfl⟩
  | ei => exact ⟨rfl, fun _ ↦ rfl⟩
  | _ =>
    rw [if_pos (by simpa [Instruction.switchesAfter, Instruction.pendingAfter] using hp)]
    exact ⟨rfl, fun _ ↦ rfl⟩

/-- `di` switches interrupts off and takes a note away. -/
theorem closed_step_of_di (h : s.nextAction = .execute .di) : s.step.state.cpu.Closed := by
  rw [step_execute_cpu h, settleEnable, if_neg (by simp [Instruction.switchesAfter,
    Instruction.pendingAfter])]
  exact ⟨rfl, rfl⟩

/-- **Closed stays closed** until an instruction lets interrupts in. -/
theorem closed_step (hc : s.cpu.Closed) (hn : ¬s.LetsIn) : s.step.state.cpu.Closed := by
  obtain ⟨he, hp⟩ := hc
  cases h : s.nextAction with
  | dispatch source => exact absurd h (not_dispatch he source)
  | idle => rw [Core.step, h]; exact ⟨he, hp⟩
  | leaveStop => rw [Core.step, h]; exact ⟨he, hp⟩
  | reject opcode =>
    rw [Rejects.step_cpu ⟨opcode, h⟩]
    exact ⟨he, hp⟩
  | execute i =>
    obtain ⟨he', hp', -⟩ := step_execute_switches h hp
    rw [he] at he'
    rw [Cpu.Closed, he', hp']
    cases i with
    | ei => exact absurd (Or.inl h) hn
    | reti => exact absurd (Or.inr h) hn
    | _ => exact ⟨rfl, rfl⟩

/-- A note is left by `ei` alone, and is still there only after steps that carry out nothing. -/
theorem pending_of_step_pending (h : s.step.state.cpu.enablePending = true) :
    (s.nextAction = .execute .ei ∧ s.cpu.enablePending = false) ∨
      (s.cpu.enablePending = true ∧ ∀ i, s.nextAction ≠ .execute i) := by
  cases ha : s.nextAction with
  | execute i =>
    left
    cases hp : s.cpu.enablePending with
    | true =>
      rw [(step_execute_pending ha hp).1] at h
      cases h
    | false =>
      rw [(step_execute_switches ha hp).2.1] at h
      cases i with
      | ei => exact ⟨rfl, rfl⟩
      | _ => cases h
  | dispatch source =>
    rw [(step_dispatch_switches ha).2.1] at h
    exact Or.inr ⟨h, fun _ hi ↦ Action.noConfusion hi⟩
  | _ =>
    rw [step, ha] at h
    exact Or.inr ⟨h, fun _ hi ↦ Action.noConfusion hi⟩

/-! ## Runs -/

namespace IsRun

variable {run : Nat → Core β}

/-- While there is a note the processor is awake. -/
theorem running_of_pending (hrun : IsRun run) (n : Nat)
    (h : (run n).cpu.enablePending = true) : (run n).cpu.runState = .running := by
  induction n with
  | zero => rcases hrun.start with ⟨a, v, h0⟩ | h0 <;> rw [h0] <;> rfl
  | succ n ih =>
    rw [hrun.next] at h ⊢
    rcases pending_of_step_pending h with ⟨ha, hp⟩ | ⟨hp, hno⟩
    · exact (step_execute_switches ha hp).2.2
    · cases ha : (run n).nextAction with
      | dispatch source => exact (step_dispatch_switches ha).2.2
      | execute i => exact absurd ha (hno i)
      | reject opcode => rw [Rejects.step_cpu ⟨opcode, ha⟩]
      | idle => exact absurd (ih hp) (runState_of_nextAction (Or.inl ha))
      | leaveStop => exact absurd (ih hp) (runState_of_nextAction (Or.inr ha))

/-- The state of the switches is the same after steps that all failed. -/
theorem switches_of_rejects (hrun : IsRun run) {k m : Nat} (hkm : k ≤ m)
    (h : ∀ l, k ≤ l → l < m → (run l).Rejects) :
    (run m).cpu.interruptsEnabled = (run k).cpu.interruptsEnabled ∧
      (run m).cpu.enablePending = (run k).cpu.enablePending := by
  induction m, hkm using Nat.le_induction with
  | base => exact ⟨rfl, rfl⟩
  | succ m hkm ih =>
    obtain ⟨he, hp⟩ := ih fun l hkl hlm ↦ h l hkl (by omega)
    rw [hrun.next, (h m hkm (by omega)).step_cpu]
    exact ⟨he, hp⟩

/-- **Where a note comes from.**  Interrupts are let in and there is a note besides: exactly after
an `ei` that found them let in, and after the steps that fail there. -/
theorem enabled_and_pending_iff (hrun : IsRun run) (n : Nat) :
    ((run n).cpu.interruptsEnabled = true ∧ (run n).cpu.enablePending = true) ↔
      ∃ k < n, (run k).nextAction = .execute .ei ∧ (run k).cpu.interruptsEnabled = true ∧
        (run k).cpu.enablePending = false ∧ ∀ l, k < l → l < n → (run l).Rejects := by
  constructor
  · induction n with
    | zero =>
      rintro ⟨he, -⟩
      rcases hrun.start with ⟨a, v, h0⟩ | h0 <;> rw [h0] at he <;> cases he
    | succ n ih =>
      rintro ⟨he, hp⟩
      rw [hrun.next] at he hp
      rcases pending_of_step_pending hp with ⟨ha, hp₀⟩ | ⟨hp₀, hno⟩
      · rw [(step_execute_switches ha hp₀).1] at he
        exact ⟨n, n.lt_succ_self, ha, he, hp₀, fun l hl hl' ↦ by omega⟩
      · have hawake := hrun.running_of_pending n hp₀
        cases ha : (run n).nextAction with
        | dispatch source =>
          rw [(step_dispatch_switches ha).1] at he
          cases he
        | execute i => exact absurd ha (hno i)
        | idle => exact absurd hawake (runState_of_nextAction (Or.inl ha))
        | leaveStop => exact absurd hawake (runState_of_nextAction (Or.inr ha))
        | reject opcode =>
          rw [Rejects.step_cpu ⟨opcode, ha⟩] at he
          obtain ⟨k, hk, hei, hek, hpk, hrej⟩ := ih ⟨he, hp₀⟩
          refine ⟨k, by omega, hei, hek, hpk, fun l hkl hl ↦ ?_⟩
          rcases Nat.lt_succ_iff_lt_or_eq.1 hl with hl | rfl
          · exact hrej l hkl hl
          · exact ⟨opcode, ha⟩
  · rintro ⟨k, hk, hei, hek, hpk, hrej⟩
    obtain ⟨he, hp⟩ := hrun.switches_of_rejects (Nat.succ_le_of_lt hk) fun l hl hl' ↦
      hrej l (by omega) hl'
    obtain ⟨he', hp', -⟩ := step_execute_switches hei hpk
    rw [he, hp, hrun.next, he', hp']
    exact ⟨hek, rfl⟩

/-- **A run that is closed stays closed** until an instruction lets interrupts in. -/
theorem closed_of_closed (hrun : IsRun run) {n m : Nat} (hnm : n ≤ m) (h : (run n).cpu.Closed)
    (hno : ∀ k, n ≤ k → k < m → ¬(run k).LetsIn) : (run m).cpu.Closed := by
  induction m, hnm using Nat.le_induction with
  | base => exact h
  | succ m hnm ih =>
    rw [hrun.next]
    exact closed_step (ih fun k hk hk' ↦ hno k hk (by omega)) (hno m hnm m.lt_succ_self)

/-- A dispatch without a note protects its handler. -/
theorem protected_of_not_pending (hrun : IsRun run) {n : Nat} {source : Interrupt}
    (hd : (run n).nextAction = .dispatch source) (hp : (run n).cpu.enablePending = false) :
    HandlerProtected run n := by
  intro m hm hno
  have hclosed : (run (n + 1)).cpu.Closed := by
    obtain ⟨he', hp', -⟩ := step_dispatch_switches hd
    rw [hrun.next]
    exact ⟨he', hp'.trans hp⟩
  obtain ⟨he, -⟩ := hrun.closed_of_closed (Nat.succ_le_of_lt hm) hclosed fun k hk hk' ↦
    hno k (by omega) hk'
  exact ⟨he, not_dispatch he⟩

end IsRun

/-! ## A handler that is entered again -/

/-- Plain memory, as the function from addresses to what they hold. -/
instance functionBus : Bus (UInt16 → UInt8) where
  read f a := f a
  write f a v := fun b ↦ if b = a then v else f b

/-- The processor as the boot program leaves it, before `ei`, `nop` and a second `ei`, with all
interrupts enabled; at the moments given, the request byte is set from outside. -/
def requesting (requests : Nat → Option UInt8) : Nat → Core (UInt16 → UInt8)
  | 0 =>
    { cpu := .postBoot
      bus := fun a ↦
        if a = 0x100 ∨ a = 0x102 then 0xFB else if a = interruptEnableAddress then 0x1F else 0 }
  | n + 1 =>
    match requests n with
    | some v => (requesting requests n).step.state.store interruptFlagAddress v
    | none => (requesting requests n).step.state

theorem isRun_requesting (requests : Nat → Option UInt8) : IsRun (requesting requests) := by
  refine ⟨Or.inr rfl, fun n ↦ ?_⟩
  rw [requesting]
  split <;> rfl

/-- From outside, nothing but the request byte is changed. -/
theorem read_requesting_succ (requests : Nat → Option UInt8) (n : Nat) {a : UInt16}
    (h : a ≠ interruptFlagAddress) :
    (requesting requests (n + 1)).read a = (requesting requests n).step.state.read a := by
  rw [requesting]
  split
  · exact if_neg h
  · rfl

/-- Two interrupts are requested when the second `ei` has been carried out. -/
def reentered : Nat → Core (UInt16 → UInt8) :=
  requesting fun n ↦ if n = 2 then some 0x03 else none

/-- The handler of the first interrupt begins with a `nop`, and its second step is the dispatch of
the other one. -/
theorem reentered_actions :
    (reentered 3).nextAction = .dispatch .vBlank ∧ (reentered 4).nextAction = .execute .nop ∧
      (reentered 5).nextAction = .dispatch .lcdStat :=
  ⟨rfl, rfl, rfl⟩

/-- **A dispatch does not protect its handler in general**, not even when nothing but the two bytes
of the interrupts changes from outside. -/
theorem not_always_protected :
    ¬∀ run : Nat → Core (UInt16 → UInt8), IsRun run →
      (∀ n a, a ≠ interruptFlagAddress → a ≠ interruptEnableAddress →
        (run (n + 1)).read a = (run n).step.state.read a) →
      ∀ n source, (run n).nextAction = .dispatch source → HandlerProtected run n := by
  intro h
  obtain ⟨h3, h4, h5⟩ := reentered_actions
  have hp := h reentered (isRun_requesting _)
    (fun n a ha _ ↦ read_requesting_succ _ n ha) 3 .vBlank h3
  refine (hp 5 (by decide) fun k hk hk' hlets ↦ ?_).2 .lcdStat h5
  have hk4 : k = 4 := by omega
  rw [hk4, LetsIn, h4] at hlets
  rcases hlets with hl | hl <;> cases hl

/-! ## The condition -/

/-- The first instruction of the handler entered at moment `n`, if one is carried out, decides about
interrupts itself. -/
def HandlerDecides (run : Nat → Core β) (n : Nat) : Prop :=
  ∀ m, n < m → (∀ k, n < k → k < m → (run k).Rejects) →
    ∀ i, (run m).nextAction = .execute i → i = .di ∨ i = .ei ∨ i = .reti

namespace IsRun

variable {run : Nat → Core β}

/-- Steps that fail right after a dispatch leave the switches as the dispatch has. -/
theorem switches_after_dispatch (hrun : IsRun run) {n m : Nat} {source : Interrupt}
    (hd : (run n).nextAction = .dispatch source) (hm : n < m)
    (hrej : ∀ k, n < k → k < m → (run k).Rejects) :
    (run m).cpu.interruptsEnabled = false ∧
      (run m).cpu.enablePending = (run n).cpu.enablePending := by
  obtain ⟨he, hp⟩ := hrun.switches_of_rejects (Nat.succ_le_of_lt hm) fun k hk hk' ↦
    hrej k (by omega) hk'
  obtain ⟨he', hp', -⟩ := step_dispatch_switches hd
  rw [he, hp, hrun.next]
  exact ⟨he', hp'⟩

/-- With a note, a protected handler is one that decides about interrupts at once. -/
theorem decides_of_protected (hrun : IsRun run) {n : Nat} {source : Interrupt}
    (hd : (run n).nextAction = .dispatch source) (hp : (run n).cpu.enablePending = true)
    (h : HandlerProtected run n) : HandlerDecides run n := by
  intro m hm hrej i hi
  by_contra hno
  simp only [not_or] at hno
  obtain ⟨hdi, hei, hreti⟩ := hno
  obtain ⟨-, hpm⟩ := hrun.switches_after_dispatch hd hm hrej
  have hon : (run (m + 1)).cpu.interruptsEnabled = true := by
    rw [hrun.next]
    exact (step_execute_pending hi (hpm.trans hp)).2 hdi
  have hoff : (run (m + 1)).cpu.interruptsEnabled = false := by
    refine (h (m + 1) (by omega) fun k hk hk' hlets ↦ ?_).1
    rcases Nat.lt_succ_iff_lt_or_eq.1 hk' with hk' | rfl
    · obtain ⟨opcode, hop⟩ := hrej k hk hk'
      rcases hlets with hl | hl <;> rw [hop] at hl <;> cases hl
    · rcases hlets with hl | hl <;> rw [hi] at hl <;> cases hl <;> contradiction
  rw [hon] at hoff
  cases hoff

/-- With a note, until an instruction lets interrupts in a handler that decides at once has either
carried out nothing or is closed. -/
theorem closed_of_decides (hrun : IsRun run) {n m : Nat} {source : Interrupt}
    (hd : (run n).nextAction = .dispatch source) (hp : (run n).cpu.enablePending = true)
    (h : HandlerDecides run n) (hm : n + 1 ≤ m)
    (hno : ∀ k, n < k → k < m → ¬(run k).LetsIn) :
    (∀ k, n < k → k < m → (run k).Rejects) ∨ (run m).cpu.Closed := by
  induction m, hm using Nat.le_induction with
  | base => exact Or.inl fun k hk hk' ↦ by omega
  | succ m hm ih =>
    have hlast : ¬(run m).LetsIn := hno m hm m.lt_succ_self
    rcases ih fun k hk hk' ↦ hno k hk (by omega) with hrej | hclosed
    · obtain ⟨he, hpm⟩ := hrun.switches_after_dispatch hd hm hrej
      have hawake := hrun.running_of_pending m (hpm.trans hp)
      cases ha : (run m).nextAction with
      | dispatch source => exact absurd ha (not_dispatch he source)
      | idle => exact absurd hawake (runState_of_nextAction (Or.inl ha))
      | leaveStop => exact absurd hawake (runState_of_nextAction (Or.inr ha))
      | reject opcode =>
        refine Or.inl fun k hk hk' ↦ ?_
        rcases Nat.lt_succ_iff_lt_or_eq.1 hk' with hk' | rfl
        · exact hrej k hk hk'
        · exact ⟨opcode, ha⟩
      | execute i =>
        right
        rw [hrun.next]
        rcases h m hm hrej i ha with rfl | rfl | rfl
        · exact closed_step_of_di ha
        · exact absurd (Or.inl ha) hlast
        · exact absurd (Or.inr ha) hlast
    · right
      rw [hrun.next]
      exact closed_step hclosed hlast

theorem protected_of_decides (hrun : IsRun run) {n : Nat} {source : Interrupt}
    (hd : (run n).nextAction = .dispatch source) (hp : (run n).cpu.enablePending = true)
    (h : HandlerDecides run n) : HandlerProtected run n := by
  intro m hm hno
  have he : (run m).cpu.interruptsEnabled = false := by
    rcases hrun.closed_of_decides hd hp h hm hno with hrej | hclosed
    · exact (hrun.switches_after_dispatch hd hm hrej).1
    · exact hclosed.1
  exact ⟨he, not_dispatch he⟩

end IsRun

/-- **When a handler is protected.**  Exactly when there is no note at its dispatch, or its first
instruction decides about interrupts itself; and there is a note exactly when an `ei` that found
interrupts let in has been carried out last, steps that failed apart. -/
theorem handlerProtected_iff {run : Nat → Core β} (hrun : IsRun run) {n : Nat}
    {source : Interrupt} (hd : (run n).nextAction = .dispatch source) :
    (HandlerProtected run n ↔
        ((run n).cpu.enablePending = true → HandlerDecides run n)) ∧
      ((run n).cpu.enablePending = true ↔
        ∃ k < n, (run k).nextAction = .execute .ei ∧ (run k).cpu.interruptsEnabled = true ∧
          (run k).cpu.enablePending = false ∧ ∀ l, k < l → l < n → (run l).Rejects) := by
  refine ⟨⟨fun h hp ↦ hrun.decides_of_protected hd hp h, fun h ↦ ?_⟩, ?_⟩
  · cases hp : (run n).cpu.enablePending with
    | true => exact hrun.protected_of_decides hd hp (h hp)
    | false => exact hrun.protected_of_not_pending hd hp
  · rw [← hrun.enabled_and_pending_iff n]
    exact ⟨fun hp ↦ ⟨(nextAction_eq_dispatch_iff.1 hd).1, hp⟩, fun h ↦ h.2⟩

/-- In the run in which a handler is entered again, there is a note at the dispatch, and the first
instruction of the handler does not decide. -/
theorem handlerProtected_iff_reentered :
    IsRun reentered ∧ (reentered 3).nextAction = .dispatch .vBlank ∧
      (reentered 3).cpu.enablePending = true ∧ ¬HandlerDecides reentered 3 ∧
      ¬HandlerProtected reentered 3 := by
  obtain ⟨h3, h4, -⟩ := reentered_actions
  have hrun : IsRun reentered := isRun_requesting _
  have hnote : (reentered 3).cpu.enablePending = true :=
    (handlerProtected_iff hrun h3).2.2 ⟨2, by decide, rfl, rfl, rfl, fun l hl hl' ↦ by omega⟩
  have hno : ¬HandlerDecides reentered 3 := by
    intro hd
    have := hd 4 (by decide) (fun k hk hk' ↦ by omega) .nop h4
    simp at this
  exact ⟨hrun, h3, hnote, hno, fun hp ↦ hno ((handlerProtected_iff hrun h3).1.1 hp hnote)⟩

end Core
end Handheld
