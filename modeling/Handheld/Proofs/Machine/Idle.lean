import Handheld.Proofs.Cpu.Waking
import Handheld.Proofs.Machine.Interchange
import Handheld.Proofs.Machine.Runs
import Mathlib.Data.Nat.Init

/-!
# Fast-forward

A processor that is halted while no interrupt is enabled sleeps for good: a step of such a machine
is a step of the devices alone, of four cycles (`Machine.Idle.step_eq_ok`), and no device enables an
interrupt.  So any number of steps can be taken at once, with one tick of the picture unit and one
of the timer after it (`Machine.idle_steps`).

Step by step the two take turns, four cycles each.  That they may as well run one after the other
for the whole time (`Machine.catchUp_add`) takes three facts: it does not matter how a tick of the
picture unit is divided, nor how one of the timer is, and the picture unit does not see that the
timer has run.

The shortest boot program that leads there is one that halts at once (`Machine.sleepProgram`); a
machine that runs it never fails.
-/

set_option autoImplicit false

namespace Handheld
namespace Machine

variable {m m' : Machine} {cycles k total : Nat}

/-! ## Catching up in two parts -/

/-- The picture unit goes on as if the timer had not run, and the timer gets as far as if it had
waited. -/
theorem tick_behind_timer (s : Scan) (timer : Timer) (cycles dots : Nat) :
    (timer.tick (s.tick dots).state.bus cycles).1 = (timer.tick s.bus cycles).1 ∧
      Scan.tick ⟨s.ppu, (timer.tick s.bus cycles).2⟩ dots =
        { answer := (s.tick dots).answer
          state := ⟨(s.tick dots).state.ppu, (timer.tick (s.tick dots).state.bus cycles).2⟩ } := by
  have hstart : Scan.Alike (timer.TicksTo (timer.tick s.bus cycles).1 cycles) s
      ⟨s.ppu, (timer.tick s.bus cycles).2⟩ := ⟨rfl, rfl⟩
  obtain ⟨hanswer, hppu, hbus⟩ := (timer.blind_ticksTo _ cycles).tick hstart dots
  have hbus : timer.tick (s.tick dots).state.bus cycles = _ := hbus
  rw [hbus, ← hanswer, ← hppu]
  exact ⟨rfl, rfl⟩

/-- The machine when the devices have caught up by `cycles`, of which the picture unit has got to
`s`. -/
def caughtUp (m : Machine) (s : Scan) (cycles : Nat) : Machine :=
  { m with
    ppu := s.ppu
    bus := (m.timer.tick s.bus cycles).2
    timer := (m.timer.tick s.bus cycles).1 }

/-- The devices go on from where they have got to. -/
theorem catchUp_caughtUp (m : Machine) (s : Scan) (a b : Nat) :
    (m.caughtUp s a).catchUp b = ⟨.ok (), m'⟩ ↔
      ∃ s', s.tick b = ⟨.ok (), s'⟩ ∧ m' = m.caughtUp s' (a + b) := by
  obtain ⟨htimer, hscan⟩ := tick_behind_timer s m.timer a b
  have hscan : (m.caughtUp s a).scan.tick b = _ := hscan
  rw [catchUp_eq_ok, hscan]
  rcases hticked : s.tick b with ⟨e | ⟨⟩, s'⟩
  · simp
  · rw [hticked] at htimer
    have hcaught : (m.caughtUp s a).caughtUp ⟨s'.ppu, (m.timer.tick s'.bus a).2⟩ b =
        m.caughtUp s' (a + b) := by
      rw [caughtUp, caughtUp, caughtUp, ← Timer.tick_tick, ← htimer]
    constructor
    · rintro ⟨s₂, h, rfl⟩
      cases h
      exact ⟨s', rfl, hcaught⟩
    · rintro ⟨s₂, h, rfl⟩
      cases h
      exact ⟨_, rfl, hcaught.symm⟩

/-- **It does not matter where the devices pause**, if the picture unit is settled. -/
theorem catchUp_add (hs : m.scan.Settled) (a b : Nat) :
    m.catchUp (a + b) = ⟨.ok (), m'⟩ ↔
      ∃ m₁, m.catchUp a = ⟨.ok (), m₁⟩ ∧ m₁.catchUp b = ⟨.ok (), m'⟩ := by
  rw [catchUp_eq_ok, Scan.tick_add hs]
  constructor
  · rintro ⟨s, h, rfl⟩
    obtain ⟨_, s₁, h₁, h₂⟩ := Outcome.andThen_eq_ok.1 h
    exact ⟨m.caughtUp s₁ a, catchUp_eq_ok.2 ⟨s₁, h₁, rfl⟩,
      (catchUp_caughtUp m s₁ a b).2 ⟨s, h₂, rfl⟩⟩
  · rintro ⟨m₁, hm₁, hm'⟩
    obtain ⟨s₁, h₁, rfl⟩ := catchUp_eq_ok.1 hm₁
    obtain ⟨s, h₂, rfl⟩ := (catchUp_caughtUp m s₁ a b).1 hm'
    exact ⟨s, Outcome.andThen_eq_ok.2 ⟨(), s₁, h₁, h₂⟩, rfl⟩

/-! ## The machine at rest -/

/-- A step in which the processor stays asleep is one of the devices. -/
theorem step_eq_ok_of_asleep (h : m.core.step = ⟨.ok 4, m.core⟩) :
    m.step = ⟨.ok cycles, m'⟩ ↔ cycles = 4 ∧ m.catchUp 4 = ⟨.ok (), m'⟩ := by
  rw [step_eq_ok, h]
  constructor
  · rintro ⟨hcycles, hdevices⟩
    obtain rfl : 4 = cycles := Except.ok.inj hcycles
    exact ⟨rfl, hdevices⟩
  · rintro ⟨rfl, hdevices⟩
    exact ⟨rfl, hdevices⟩

/-- The processor is halted, and no interrupt is enabled that could wake it. -/
structure Idle (m : Machine) : Prop where
  halted : m.cpu.runState = .halted
  none_enabled : m.bus.get .interruptEnable &&& 0x1F = 0

namespace Idle

theorem nextAction_eq (h : m.Idle) : m.core.nextAction = .idle := by
  refine (Core.nextAction_eq_idle_iff h.halted).2 ?_
  have henable : m.core.bus.get .interruptEnable &&& 0x1F = 0 := h.none_enabled
  rw [Core.pending_eq, UInt8.and_assoc, UInt8.and_comm (m.core.bus.get .interruptFlag),
    ← UInt8.and_assoc, henable, UInt8.zero_and]

/-- The processor takes no part in a step. -/
theorem core_step (h : m.Idle) : m.core.step = ⟨.ok 4, m.core⟩ := Core.step_of_idle h.nextAction_eq

/-- **A step is four cycles of the devices.** -/
theorem step_eq_ok (h : m.Idle) :
    m.step = ⟨.ok cycles, m'⟩ ↔ cycles = 4 ∧ m.catchUp 4 = ⟨.ok (), m'⟩ :=
  step_eq_ok_of_asleep h.core_step

/-- The devices do not wake the processor. -/
theorem of_catchUp (h : m.Idle) (hc : m.catchUp cycles = ⟨.ok (), m'⟩) : m'.Idle := by
  have hbus := m.catchUp_changesOnly cycles
  rw [hc] at hbus
  have henable : m'.bus.get .interruptEnable = m.bus.get .interruptEnable :=
    hbus.get_eq (by decide)
  obtain ⟨s, -, rfl⟩ := catchUp_eq_ok.1 hc
  exact ⟨h.halted, by rw [henable]; exact h.none_enabled⟩

/-- `k` steps are `4 * k` cycles of the devices, by induction on `k`: one step more is a pause more
in which the devices may stop. -/
theorem steps_eq_ok (h : m.Idle) (hs : m.scan.Settled) (hk : 0 < k) :
    m.steps k = ⟨.ok total, m'⟩ ↔ total = 4 * k ∧ m.catchUp (4 * k) = ⟨.ok (), m'⟩ := by
  induction k, hk using Nat.le_induction generalizing total m' with
  | base =>
    rw [Nat.mul_one, ← h.step_eq_ok, steps_succ_eq_ok]
    constructor
    · rintro ⟨t, m₁, c, hnone, hstep, rfl⟩
      cases hnone
      rwa [Nat.zero_add]
    · intro hstep
      exact ⟨0, m, total, rfl, hstep, (Nat.zero_add _).symm⟩
  | succ k _ ih =>
    rw [steps_succ_eq_ok, Nat.mul_succ, catchUp_add hs]
    constructor
    · rintro ⟨t, m₁, c, hsteps, hstep, rfl⟩
      obtain ⟨rfl, hdevices⟩ := ih.1 hsteps
      obtain ⟨rfl, hlast⟩ := (h.of_catchUp hdevices).step_eq_ok.1 hstep
      exact ⟨rfl, m₁, hdevices, hlast⟩
    · rintro ⟨rfl, m₁, hdevices, hlast⟩
      exact ⟨_, m₁, 4, ih.2 ⟨rfl, hdevices⟩, (h.of_catchUp hdevices).step_eq_ok.2 ⟨rfl, hlast⟩, rfl⟩

/-- However many steps are made, the next one is as the first. -/
theorem of_steps (h : m.Idle) (hs : m.scan.Settled) (hsteps : m.steps k = ⟨.ok total, m'⟩) :
    m'.Idle := by
  rcases Nat.eq_zero_or_pos k with rfl | hk
  · cases hsteps
    exact h
  · obtain ⟨-, hdevices⟩ := (h.steps_eq_ok hs hk).1 hsteps
    exact h.of_catchUp hdevices

/-- **A machine that is idle does not fail**, if it need not draw sprites of double height. -/
theorem exists_steps_eq_ok (h : m.Idle) (hs : m.scan.Settled)
    (hdraw : ¬m.bus.lcdControl.TallSprites) (k : Nat) :
    ∃ total m', m.steps k = ⟨.ok total, m'⟩ := by
  rcases Nat.eq_zero_or_pos k with rfl | hk
  · exact ⟨0, m, rfl⟩
  · have htick := Scan.tick_eq_ok (s := m.scan) hdraw (4 * k)
    exact ⟨4 * k, _, (h.steps_eq_ok hs hk).2 ⟨rfl, catchUp_eq_ok.2 ⟨_, htick, rfl⟩⟩⟩

end Idle

/-- **A machine that is idle can be taken forward at once.**  The processor is halted, no interrupt
is enabled, and the picture unit is settled.  Then `k` steps of the machine, at least one, succeed
exactly if one tick of the picture unit for `4 * k` dots does; each of them takes four cycles; and
they leave the machine as that tick and one of the timer leave it, for as many cycles, with the
processor as it was. -/
theorem idle_steps (h : m.Idle) (hs : m.scan.Settled) (hk : 0 < k) :
    (m.steps k = ⟨.ok total, m'⟩ ↔
      total = 4 * k ∧ ∃ s, m.scan.tick (4 * k) = ⟨.ok (), s⟩ ∧
        m' = { m with
          ppu := s.ppu
          bus := (m.timer.tick s.bus (4 * k)).2
          timer := (m.timer.tick s.bus (4 * k)).1 }) ∧
      (m.steps k = ⟨.ok total, m'⟩ →
        ∀ j < k, ∃ t m₁, m.steps j = ⟨.ok t, m₁⟩ ∧ m₁.step.answer = .ok 4) := by
  refine ⟨(h.steps_eq_ok hs hk).trans (and_congr_right fun _ ↦ catchUp_eq_ok), fun hsteps j hj ↦ ?_⟩
  obtain ⟨rest, rfl⟩ := Nat.exists_eq_add_of_le (Nat.succ_le_of_lt hj)
  obtain ⟨t, m₂, t', hfirst, -, -⟩ := steps_add_eq_ok.1 hsteps
  obtain ⟨t, m₁, c, hbefore, hstep, rfl⟩ := steps_succ_eq_ok.1 hfirst
  obtain ⟨rfl, -⟩ := (h.of_steps hs hbefore).step_eq_ok.1 hstep
  exact ⟨t, m₁, hbefore, congrArg Outcome.answer hstep⟩

/-- A machine that is halted at the start of a frame. -/
def napping : Machine where
  cpu := { runState := .halted }
  bus := (Scan.topOfFrame .blank).bus
  ppu := (Scan.topOfFrame .blank).ppu

/-- Nineteen steps take it to the last dot but four before the first boundary. -/
theorem idle_steps_napping :
    (napping.steps 19).answer = .ok 76 ∧ (napping.steps 19).state.ppu.dot = 76 := by
  have hidle : napping.Idle := by
    refine ⟨rfl, ?_⟩
    have hnone : napping.bus.get .interruptEnable = 0 :=
      (SystemBus.get_set_of_ne _ _ (by decide)).trans (SystemBus.isBlank_blank.peek_eq _)
    rw [hnone]
    rfl
  have hsettled : napping.scan.Settled := Scan.settled_topOfFrame SystemBus.isBlank_blank
  have htick : napping.scan.tick (4 * 19) = _ := hsettled.tick_of_lt (by decide)
  have hsteps := (idle_steps hidle hsettled (by decide)).1.2 ⟨rfl, _, htick, rfl⟩
  rw [hsteps]
  exact ⟨rfl, rfl⟩

/-! ## A program that sleeps -/

/-- A boot program that puts the processor to sleep and does nothing else. -/
def sleepProgram : BootRom := .ofFn fun _ ↦ 0x76

/-- The machine is idle after its first step. -/
theorem idle_of_sleepProgram (hm : assemble (some sleepProgram.bytes) none = .ok m) :
    ∃ m₁, m.step = ⟨.ok 4, m₁⟩ ∧ m₁.Idle ∧ m₁.scan.Settled ∧
      ¬m₁.bus.lcdControl.TallSprites := by
  have h := InBootProgram.of_assemble hm
  have hline : m.ppu.line < frameLines := by
    rw [(SwitchedOn.of_assemble hm).ppu_eq]
    decide
  have hhalt : Instruction.fetch? m.bus m.cpu.regs.pc = some .halt :=
    h.fetch_eq (by decide) (by
      simp only [sleepProgram, BootRom.read_ofFn]
      rfl)
  have hcore : m.core.step = ⟨.ok 4, m.core.run .halt⟩ :=
    Core.step_of_execute (h.nextAction_eq hhalt)
  have hasleep : Idle { m with cpu := (m.core.run .halt).cpu, bus := (m.core.run .halt).bus } := by
    refine ⟨Core.settleEnable_runState _ _, ?_⟩
    show m.bus.get .interruptEnable &&& 0x1F = 0
    rw [h.enable_eq, UInt8.zero_and]
  obtain ⟨m₁, hcaught⟩ : ∃ m₁, catchUp
      { m with cpu := (m.core.run .halt).cpu, bus := (m.core.run .halt).bus } 4 = ⟨.ok (), m₁⟩ :=
    ⟨_, catchUp_eq_ok.2 ⟨_, Scan.tick_eq_ok (s := m.scan) h.drawable 4, rfl⟩⟩
  have hstep : m.step = ⟨.ok 4, m₁⟩ :=
    step_eq_ok.2 ⟨by rw [hcore], by rw [hcore]; exact hcaught⟩
  have hbus := catchUp_changesOnly
    { m with cpu := (m.core.run .halt).cpu, bus := (m.core.run .halt).bus } 4
  rw [hcaught] at hbus
  have hcontrol : m₁.bus.lcdControl = m.bus.lcdControl := hbus.lcdControl_eq (by decide)
  exact ⟨m₁, hstep, hasleep.of_catchUp hcaught, settled_of_step hline hstep,
    hcontrol ▸ h.drawable⟩

/-- It never fails. -/
theorem steps_of_sleepProgram (hm : assemble (some sleepProgram.bytes) none = .ok m) (k : Nat) :
    ∃ total m', m.steps k = ⟨.ok total, m'⟩ := by
  obtain ⟨m₁, hstep, hidle, hsettled, hdraw⟩ := idle_of_sleepProgram hm
  cases k with
  | zero => exact ⟨0, m, rfl⟩
  | succ k =>
    obtain ⟨total, m', hrest⟩ := hidle.exists_steps_eq_ok hsettled hdraw k
    have hfirst : m.steps 1 = ⟨.ok 4, m₁⟩ := steps_succ_eq_ok.2 ⟨0, m, 4, rfl, hstep, rfl⟩
    rw [Nat.add_comm]
    exact ⟨_, m', steps_add_eq_ok.2 ⟨4, m₁, total, hfirst, hrest, rfl⟩⟩

end Machine
end Handheld
