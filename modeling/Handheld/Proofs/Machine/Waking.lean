import Handheld.Proofs.Machine.NextFrame
import Handheld.Proofs.Timer.Ticks
import Handheld.Proofs.Video.Requests

/-!
# A processor that sleeps is woken by the end of the picture

A halted processor does nothing that could end its sleep.  What does is the beam, which moves on by
four dots in each step in which the processor stays asleep.  When it has got to the end of the
visible lines a frame has begun, and so the interrupt of the vertical blank has been requested; if
that interrupt is enabled, the processor wakes in the next step.

So the number of steps that it can stay asleep is bounded by the dots to the end of the visible
lines, a quarter of them (`Machine.wakes_of_halted`).  Another interrupt may be earlier.  What the
bound rests on is kept from one such step to the next (`Machine.Slept`): the beam has moved on by as
many dots as cycles have passed, a frame has begun only together with a request, and what is enabled
is still enabled.
-/

set_option autoImplicit false

namespace Handheld

/-- The timer requests no interrupt but its own. -/
theorem Timer.isRequested_tick (timer : Timer) (bus : SystemBus) (cycles : Nat)
    {source : Interrupt} (h : source ≠ .timer) :
    (timer.tick bus cycles).2.isRequested source = bus.isRequested source := by
  have hown (requests : UInt8) : (requests ||| Interrupt.timer.mask).toNat.testBit source.index.val =
      requests.toNat.testBit source.index.val := by
    have hindex : ¬Interrupt.timer.index.val = source.index.val := by
      cases source <;> first | contradiction | decide
    rw [Interrupt.testBit_or_mask, decide_eq_false hindex, Bool.or_false]
  rw [tick_bus, SystemBus.isRequested_set_of_ne _ _ (by decide), SystemBus.isRequested,
    get_interruptFlag_countUpBy]
  split
  · rfl
  · exact hown (bus.get .interruptFlag)

namespace Core

/-- An interrupt that is requested and enabled is pending. -/
theorem pending_ne_zero {s : Core SystemBus} (source : Interrupt)
    (henabled : (s.bus.get .interruptEnable).toNat.testBit source.index.val)
    (hrequested : s.bus.isRequested source) : s.pending ≠ 0 := by
  intro hp
  have hrequested : (s.bus.get .interruptFlag).toNat.testBit source.index.val := hrequested
  have hbit : s.pending.toNat.testBit source.index.val := by
    rw [pending_eq, Interrupt.testBit_and_five, UInt8.toNat_and, Nat.testBit_and, henabled,
      hrequested, decide_eq_true source.index.isLt]
    rfl
  rw [hp] at hbit
  simp at hbit

variable {β : Type} [Bus β] {s : Core β}

/-- **What a halted processor does that does not stay asleep**, if it does not fail. -/
theorem step_of_woken (hr : s.cpu.runState = .halted) (hawake : s.nextAction ≠ .idle) {cycles : Nat}
    (hok : s.step.answer = .ok cycles) :
    (s.cpu.interruptsEnabled = true ∧ ∃ source, s.nextAction = .dispatch source) ∨
      (s.cpu.interruptsEnabled = false ∧
        ∃ i, Instruction.fetch? s.bus s.regs.pc = some i ∧ s.nextAction = .execute i) := by
  have hp := mt (nextAction_eq_idle_iff hr).2 hawake
  rcases nextAction_of_woken hr hp with hserved | ⟨hoff, hfetch⟩
  · exact Or.inl hserved
  · exact Or.inr ⟨hoff, exists_fetch_of_step hfetch hok⟩

end Core

namespace Machine

variable {m m' m'' : Machine} {c d k n t : Nat}

/-! ## What is kept in the sleep -/

/-- The machine `m` has become `m'` in `n` cycles in which its processor was asleep. -/
structure Slept (m : Machine) (n : Nat) (m' : Machine) : Prop where
  cpu_eq : m'.cpu = m.cpu
  enable_eq : m'.bus.get .interruptEnable = m.bus.get .interruptEnable
  movedOn : m.scan.MovedOn n m'.scan
  blankRequested : Scan.BlankRequested m.scan m'.scan

namespace Slept

theorem start (h : m.scan.Coherent) : m.Slept 0 m := ⟨rfl, rfl, h.movedOn_zero, .refl m.scan⟩

theorem trans (h : m.Slept n m') (h' : m'.Slept k m'') : m.Slept (n + k) m'' where
  cpu_eq := h'.cpu_eq.trans h.cpu_eq
  enable_eq := h'.enable_eq.trans h.enable_eq
  movedOn := h.movedOn.trans h'.movedOn
  blankRequested := h.blankRequested.trans h'.blankRequested

/-- One step in which the processor stays asleep. -/
theorem of_step (h : m.scan.Coherent) (hidle : m.core.nextAction = .idle)
    (hs : m.step = ⟨.ok c, m'⟩) : c = 4 ∧ m.Slept 4 m' := by
  obtain ⟨rfl, hcatch⟩ := (step_eq_ok_of_asleep (Core.step_of_idle hidle)).1 hs
  have hbus := m.catchUp_changesOnly 4
  rw [hcatch] at hbus
  obtain ⟨s, htick, rfl⟩ := catchUp_eq_ok.1 hcatch
  have hblank := Scan.blankRequested_tick m.scan 4
  rw [htick] at hblank
  refine ⟨rfl, rfl, hbus.get_eq (by decide), movedOn_step h hs, hblank.frameCount_le, ?_⟩
  exact (m.timer.isRequested_tick s.bus 4 (by decide)).trans hblank.requested_eq

/-- **The end of the visible lines wakes the processor**, if it may. -/
theorem pending_ne_zero (h : m.Slept n m') (hnext : DotsToNext m.scan.position {blankStart} d)
    (henabled : (m.bus.get .interruptEnable).toNat.testBit 0) (hle : d ≤ n)
    (hlt : n < d + frameDots) : m'.core.pending ≠ 0 := by
  have hbegun : m.ppu.frameCount < m'.ppu.frameCount :=
    Nat.le_of_not_lt fun hnone ↦
      Nat.not_lt.2 hle ((h.movedOn.frameCount_lt_iff hnext hlt).1 hnone)
  have hrequested : m'.bus.isRequested .vBlank = true := by
    refine h.blankRequested.requested_eq.trans ?_
    exact Bool.or_eq_true_iff.2 (Or.inr (decide_eq_true hbegun))
  exact Core.pending_ne_zero .vBlank (h.enable_eq ▸ henabled) hrequested

end Slept

/-! ## The steps of a sleep -/

/-- The first `k` steps succeed, and the processor is to stay asleep in the next one. -/
def IdleAfter (m : Machine) (k : Nat) : Prop :=
  ∃ t m', m.steps k = ⟨.ok t, m'⟩ ∧ m'.core.nextAction = .idle

/-- As long as it stays asleep, each step takes four cycles. -/
theorem slept_steps (h : m.scan.Coherent) (hidle : ∀ j < k, m.IdleAfter j)
    (hsteps : m.steps k = ⟨.ok t, m'⟩) : t = 4 * k ∧ m.Slept t m' := by
  induction k generalizing t m' with
  | zero =>
    cases hsteps
    exact ⟨rfl, .start h⟩
  | succ k ih =>
    obtain ⟨t, m₁, c, hbefore, hs, rfl⟩ := steps_succ_eq_ok.1 hsteps
    obtain ⟨t', m₁', hbefore', hasleep⟩ := hidle k k.lt_succ_self
    rw [hbefore] at hbefore'
    cases hbefore'
    obtain ⟨rfl, hslept⟩ := ih (fun j hj ↦ hidle j (Nat.lt_succ_of_lt hj)) hbefore
    obtain ⟨rfl, hstep⟩ := Slept.of_step hslept.movedOn.coherent hasleep hs
    exact ⟨(Nat.mul_succ 4 k).symm, hslept.trans hstep⟩

/-- It does not stay asleep for longer than the beam needs to the end of the visible lines. -/
theorem exists_not_idleAfter (h : m.scan.Coherent) (hr : m.cpu.runState = .halted)
    (henabled : (m.bus.get .interruptEnable).toNat.testBit 0)
    (hnext : DotsToNext m.scan.position {blankStart} d) :
    ∃ k ≤ (d + 3) / 4, ¬m.IdleAfter k ∧ ∀ j < k, m.IdleAfter j := by
  classical
  have hends : ∃ k ≤ (d + 3) / 4, ¬m.IdleAfter k := by
    by_contra hnone
    have hall : ∀ k ≤ (d + 3) / 4, m.IdleAfter k := fun k hk ↦
      Decidable.byContradiction fun hidle ↦ hnone ⟨k, hk, hidle⟩
    obtain ⟨t, m', hsteps, hidle⟩ := hall _ (Nat.le_refl _)
    obtain ⟨rfl, hslept⟩ := slept_steps h (fun j hj ↦ hall j (Nat.le_of_lt hj)) hsteps
    have hframe : 3 < frameDots := by decide
    have hp := hslept.pending_ne_zero hnext henabled (by omega) (by omega)
    have hasleep : m'.core.cpu.runState = .halted := (congrArg Cpu.runState hslept.cpu_eq).trans hr
    exact hp ((Core.nextAction_eq_idle_iff hasleep).1 hidle)
  obtain ⟨k, hk, hidle⟩ := hends
  have hex : ∃ k, ¬m.IdleAfter k := ⟨k, hidle⟩
  refine ⟨Nat.find hex, Nat.le_trans (Nat.find_min' hex hidle) hk, Nat.find_spec hex, fun j hj ↦ ?_⟩
  exact Decidable.of_not_not (Nat.find_min hex hj)

/-- **A halted processor that may be woken by the vertical blank does not sleep for long.**  Wherever
the beam is in the frame, it gets to the end of the visible lines in some number of cycles, from one
to a whole frame.  There is a first step in which the processor does not stay asleep, and a quarter
of these cycles, rounded up, is as many as there are steps before it.  In each of them nothing
happens but that four cycles pass.  If none of them fails, the next step goes to the handler of an
interrupt if interrupts are let in.  If they are not, it carries out the instruction at the program
counter, where it was when the processor halted; or there is none, and it fails. -/
theorem wakes_of_halted (h : m.scan.Coherent) (hr : m.cpu.runState = .halted)
    (henabled : (m.bus.get .interruptEnable).toNat.testBit 0) :
    ∃ d, 0 < d ∧ d ≤ frameDots ∧ DotsToNext m.scan.position {blankStart} d ∧
      ∃ k ≤ (d + 3) / 4,
        (∀ j < k, ∃ m₁, m.steps j = ⟨.ok (4 * j), m₁⟩ ∧ m₁.cpu = m.cpu ∧
          m₁.core.nextAction = .idle ∧ m₁.core.step = ⟨.ok 4, m₁.core⟩) ∧
        ∀ total m', m.steps k = ⟨.ok total, m'⟩ →
          total = 4 * k ∧ m'.cpu = m.cpu ∧ m'.core.nextAction ≠ .idle ∧
            ∀ c, m'.step.answer = .ok c →
              (m.cpu.interruptsEnabled = true ∧
                  ∃ source, m'.core.nextAction = .dispatch source) ∨
                (m.cpu.interruptsEnabled = false ∧
                  ∃ i, Instruction.fetch? m'.bus m.cpu.regs.pc = some i ∧
                    m'.core.nextAction = .execute i) := by
  obtain ⟨d, hnext⟩ := exists_dotsToBlank m.scan.position
  obtain ⟨k, hk, hawake, hidle⟩ := exists_not_idleAfter h hr henabled hnext
  refine ⟨d, hnext.1.1, hnext.le_frameDots, hnext, k, hk, fun j hj ↦ ?_, fun total m' hsteps ↦ ?_⟩
  · obtain ⟨t, m₁, hsteps, hasleep⟩ := hidle j hj
    obtain ⟨rfl, hslept⟩ := slept_steps h (fun i hi ↦ hidle i (Nat.lt_trans hi hj)) hsteps
    exact ⟨m₁, hsteps, hslept.cpu_eq, hasleep, Core.step_of_idle hasleep⟩
  · obtain ⟨htotal, hslept⟩ := slept_steps h hidle hsteps
    have hcpu := hslept.cpu_eq
    have hne : m'.core.nextAction ≠ .idle := fun hasleep ↦ hawake ⟨total, m', hsteps, hasleep⟩
    have hr' : m'.core.cpu.runState = .halted := (congrArg Cpu.runState hcpu).trans hr
    refine ⟨htotal, hcpu, hne, fun c hc ↦ ?_⟩
    have hcore := (step_eq_ok.1 (Outcome.eq_ok_of_answer hc)).1
    rw [← hcpu]
    exact Core.step_of_woken hr' hne hcore

/-- A machine that is halted four dots before the end of the visible lines, with all interrupts
enabled and let in and none requested. -/
def dozing : Machine where
  cpu := { runState := .halted, interruptsEnabled := true }
  bus := SystemBus.blank.set .interruptEnable 0x1F
  ppu := { dot := 452, line := 143, mode := .hBlank }

/-- It sleeps for one step more, and is then served. -/
theorem wakes_of_halted_dozing :
    ∃ m' source, dozing.core.nextAction = .idle ∧ dozing.steps 1 = ⟨.ok 4, m'⟩ ∧
      m'.core.nextAction = .dispatch source := by
  have henable : dozing.bus.get .interruptEnable = 0x1F := SystemBus.get_set_self _ _ _
  have hget {r : IoRegister} (hr : r ≠ .interruptEnable) : dozing.bus.get r = 0 :=
    (SystemBus.get_set_of_ne _ _ hr).trans (SystemBus.isBlank_blank.peek_eq _)
  have hidle : dozing.core.nextAction = .idle := by
    have hflag : dozing.core.bus.get .interruptFlag = 0 := hget (by decide)
    refine (Core.nextAction_eq_idle_iff rfl).2 ?_
    rw [Core.pending_eq, hflag, UInt8.and_zero, UInt8.zero_and]
  have hcoherent : dozing.scan.Coherent := ⟨by decide, by decide, rfl⟩
  obtain ⟨d, hpos, hle, hnext, k, hk, hbefore, hafter⟩ :=
    wakes_of_halted hcoherent rfl (by rw [henable]; decide)
  have hd : d = 4 := by
    have hplace : (143 * lineDots + 452 + d) % frameDots = blankStart := hnext.1.2
    simp only [blankStart, lineDots, frameDots, frameLines, screenHeight] at *
    omega
  subst hd
  have hone : k = 1 := by
    rcases Nat.eq_zero_or_pos k with rfl | hpos
    · exact absurd hidle (hafter 0 dozing rfl).2.2.1
    · omega
  subst hone
  obtain ⟨m', hstep⟩ : ∃ m', dozing.step = ⟨.ok 4, m'⟩ := by
    have hdraw : ¬dozing.bus.lcdControl.TallSprites := by
      rw [SystemBus.lcdControl, hget (by decide)]
      decide
    have htick := Scan.tick_eq_ok (s := dozing.scan) hdraw 4
    exact ⟨_, (step_eq_ok_of_asleep (Core.step_of_idle hidle)).2
      ⟨rfl, catchUp_eq_ok.2 ⟨_, htick, rfl⟩⟩⟩
  have hsteps : dozing.steps 1 = ⟨.ok 4, m'⟩ := steps_succ_eq_ok.2 ⟨0, dozing, 4, rfl, hstep, rfl⟩
  obtain ⟨-, hcpu, hawake, -⟩ := hafter 4 m' hsteps
  have hr : m'.core.cpu.runState = .halted := congrArg Cpu.runState hcpu
  have hon : m'.core.cpu.interruptsEnabled = true := congrArg Cpu.interruptsEnabled hcpu
  have hp := mt (Core.nextAction_eq_idle_iff hr).2 hawake
  rcases Core.nextAction_of_woken hr hp with ⟨-, source, hserved⟩ | ⟨hoff, -⟩
  · exact ⟨m', source, hidle, hsteps, hserved⟩
  · rw [hon] at hoff
    cases hoff

end Machine
end Handheld
