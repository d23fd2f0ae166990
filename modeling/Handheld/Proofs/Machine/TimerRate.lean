import Handheld.Proofs.Machine.BootProgram
import Handheld.Proofs.Machine.Requests

/-!
# How fast the timer runs

The counter goes up once in each period, so in a step of `c` cycles it should go up `c / P` times at
the period `P`, and once more where the cycles left over from before fill up another period.  It does
as long as what is left over is less than a period.  But the cycles left over are kept when the
control register is written, and then they may be those of a longer period: the counter makes up for
all of them at once at the new rate.

`Machine.increments_in_step` says how often the counter goes up in any step, and when that is within
the bound: exactly when the cycles left over, which are always less than the period at which the
counter has last run, are not too many for the new one.  A program of four instructions in the boot
ROM (`Machine.rateProgram`) is enough for too many.
-/

set_option autoImplicit false

namespace Handheld
namespace Machine

variable {m m' : Machine} {bus : SystemBus} {c : Nat}

/-! ## The timer in a step -/

/-- The bus that the timer finds in the next step, if it comes to that: processor and picture unit
have done their part. -/
def timerBus (m : Machine) : Option SystemBus :=
  match m.step.answer with
  | .ok cycles => some (Scan.tick ⟨m.ppu, m.core.step.state.bus⟩ cycles).state.bus
  | .error _ => none

/-- The period at which the counter runs in the next step, if it runs. -/
def period? (m : Machine) : Option Nat :=
  m.timerBus.bind fun bus ↦
    if Timer.isEnabled (bus.get .timerControl) then
      some (Timer.counterPeriod (bus.get .timerControl))
    else none

theorem timerBus_of_step (h : m.step = ⟨.ok c, m'⟩) :
    m.timerBus = some (Scan.tick ⟨m.ppu, m.core.step.state.bus⟩ c).state.bus := by
  rw [timerBus, h]

theorem period?_eq_some_iff (hbus : m.timerBus = some bus) {P : Nat} :
    m.period? = some P ↔
      Timer.isEnabled (bus.get .timerControl) = true ∧
        Timer.counterPeriod (bus.get .timerControl) = P := by
  rw [period?, hbus, Option.bind_some]
  split <;> simp [*]

/-- In a step that succeeds the timer runs last. -/
theorem timer_of_step (h : m.step = ⟨.ok c, m'⟩) :
    ∃ bus, m.timerBus = some bus ∧ m'.bus = (m.timer.tick bus c).2 ∧
      m'.timer = (m.timer.tick bus c).1 := by
  obtain ⟨-, hcatch⟩ := step_eq_ok.1 h
  obtain ⟨s, htick, rfl⟩ := catchUp_eq_ok.1 hcatch
  refine ⟨s.bus, ?_, rfl, rfl⟩
  rw [timerBus, h]
  exact congrArg (fun o ↦ some o.state.bus) htick

theorem timer_of_catchUp_error {e : MachineError} (h : (m.catchUp c).answer = .error e) :
    (m.catchUp c).state.timer = m.timer := by
  obtain ⟨cpu, bus, ppu, timer, header⟩ := m
  rw [catchUp] at h ⊢
  dsimp only at h ⊢
  generalize Scan.tick ⟨ppu, bus⟩ c = scanned at h ⊢
  rcases scanned with ⟨e | ⟨⟩, ppu, bus⟩
  · rfl
  · cases h

/-- In a step that fails it does not run. -/
theorem timer_of_step_error {e : MachineError} (h : m.step.answer = .error e) :
    m.timerBus = none ∧ m.step.state.timer = m.timer := by
  refine ⟨by rw [timerBus, h], ?_⟩
  obtain ⟨cpu, bus, ppu, timer, header⟩ := m
  rw [step] at h ⊢
  dsimp only at h ⊢
  generalize Core.step ⟨cpu, bus⟩ = stepped at h ⊢
  rcases stepped with ⟨e | c, cpu, bus⟩
  · rfl
  · have hcatch : (catchUp ⟨cpu, bus, ppu, timer, header⟩ (max c 1)).answer = .error e →
        (catchUp ⟨cpu, bus, ppu, timer, header⟩ (max c 1)).state.timer = timer :=
      timer_of_catchUp_error
    dsimp only at h hcatch ⊢
    generalize catchUp ⟨cpu, bus, ppu, timer, header⟩ (max c 1) = caught at h hcatch ⊢
    rcases caught with ⟨e' | ⟨⟩, m⟩
    · cases h
      exact hcatch rfl
    · cases h

/-! ## The cycles left over -/

/-- The period at which the counter has last run, after something has happened. -/
def lastPeriodAfter (m : Machine) (last : Option Nat) : Happening → Option Nat
  | .step => m.period?.or last
  | .keys _ => last

/-- The period at which the counter has last run in the course of some happenings, the last one
before them being given; none if it has never run. -/
def lastPeriod (m : Machine) (last : Option Nat) : List Happening → Option Nat
  | [] => last
  | x :: run => (m.after x).lastPeriod (m.lastPeriodAfter last x) run

/-- What is left over is less than a period of the rate at which the counter has last run; it is
nothing if it has never run. -/
def LessThanPeriod (timer : Timer) (last : Option Nat) : Prop :=
  timer.counterCycles < last.getD 1

theorem lessThanPeriod_after {last : Option Nat} (h : LessThanPeriod m.timer last)
    (x : Happening) : LessThanPeriod (m.after x).timer (m.lastPeriodAfter last x) := by
  cases x with
  | keys event => exact h
  | step =>
    show LessThanPeriod m.step.state.timer (m.period?.or last)
    rcases hs : m.step with ⟨e | c, m'⟩
    · obtain ⟨hbus, htimer⟩ := timer_of_step_error (m := m) (e := e) (by rw [hs])
      rw [hs] at htimer
      rw [period?, hbus, htimer]
      exact h
    · obtain ⟨bus, hbus, -, htimer⟩ := timer_of_step hs
      rw [LessThanPeriod, htimer, Timer.counterCycles_tick, period?, hbus, Option.bind_some]
      split
      · exact Nat.mod_lt _ (Timer.counterPeriod_pos _)
      · exact h

theorem lessThanPeriod_run {last : Option Nat} (h : LessThanPeriod m.timer last)
    (run : List Happening) : LessThanPeriod (run.foldl after m).timer (m.lastPeriod last run) := by
  induction run generalizing m last with
  | nil => exact h
  | cons x run ih => exact ih (lessThanPeriod_after h x)

/-! ## A rate that is raised -/

/-- A boot program that lets the counter run at the slowest rate and then at the fastest: it stores 4
and then 5 to the control register. -/
def rateProgram : BootRom :=
  .ofFn fun i ↦
    ([0x3E, 0x04, 0xE0, 0x07, 0x3E, 0x05, 0xE0, 0x07] : List UInt8).getD i.toNat 0

theorem rateProgram_read (i : UInt8) :
    rateProgram.read i =
      ([0x3E, 0x04, 0xE0, 0x07, 0x3E, 0x05, 0xE0, 0x07] : List UInt8).getD i.toNat 0 :=
  BootRom.read_ofFn _ i

/-- In its fourth step the program raises the rate.  By then 20 cycles are left over; the step takes
12, and the new period is 16, so the counter goes up twice. -/
theorem raised_rate :
    ∃ m m' bus, assemble (some rateProgram.bytes) none = .ok m ∧
      ([.step, .step, .step].foldl after m).step = ⟨.ok 12, m'⟩ ∧
      ([.step, .step, .step].foldl after m).timerBus = some bus ∧
      ([.step, .step, .step].foldl after m).period? = some 16 ∧
      ([.step, .step, .step].foldl after m).timer.counterCycles = 20 ∧
      bus.get .timerModulo = 0 ∧ bus.get .timerCounter = 0 ∧ m'.bus.get .timerCounter = 2 := by
  obtain ⟨m₀, hm⟩ := exists_assemble_boot rateProgram
  have h₀ := InBootProgram.of_assemble hm
  obtain ⟨m₁, -, hs₁, -, -, -, -, h₁⟩ := h₀.step (i := .loadByte .a 4) (c := 8)
    (h₀.fetch_eq (by decide) (by simp only [rateProgram_read]; rfl)) rfl (h₀.run_load 4)
  replace h₁ : InBootProgram rateProgram m₁ 2 4 0 0 0 := h₁
  obtain ⟨m₂, -, hs₂, -, -, -, -, h₂⟩ := h₁.step (i := .storeHigh 0x07) (c := 12)
    (h₁.fetch_eq (by decide) (by simp only [rateProgram_read]; rfl)) rfl h₁.run_store
  replace h₂ : InBootProgram rateProgram m₂ 4 4 4 0 12 := h₂
  obtain ⟨m₃, -, hs₃, -, -, -, -, h₃⟩ := h₂.step (i := .loadByte .a 5) (c := 8)
    (h₂.fetch_eq (by decide) (by simp only [rateProgram_read]; rfl)) rfl (h₂.run_load 5)
  replace h₃ : InBootProgram rateProgram m₃ 6 5 4 0 20 := h₃
  obtain ⟨m₄, bus, hs₄, hfound, hcontrol, hmodulo, hcount, h₄⟩ := h₃.step (i := .storeHigh 0x07)
    (c := 12) (h₃.fetch_eq (by decide) (by simp only [rateProgram_read]; rfl)) rfl h₃.run_store
  have hbus : m₃.timerBus = some bus := (timerBus_of_step hs₄).trans (congrArg some hfound)
  have hrun : [Happening.step, .step, .step].foldl after m₀ = m₃ := by
    simp only [List.foldl, after, hs₁, hs₂, hs₃]
  refine ⟨m₀, m₄, bus, hm, ?_⟩
  rw [hrun]
  refine ⟨hs₄, hbus, ?_, h₃.left_eq, hmodulo, hcount, h₄.count_eq⟩
  rw [period?_eq_some_iff hbus, hcontrol]
  exact ⟨rfl, rfl⟩

/-! ## Increments -/

/-- The bound holds when the cycles left over do not fill up two more periods. -/
theorem div_le_iff_of_remainder {r P : Nat} (hP : 0 < P) (c : Nat) :
    (r + c) / P ≤ c / P + 1 ↔ r + c % P < 2 * P := by
  have hc := Nat.div_add_mod c P
  rw [← Nat.lt_succ_iff, Nat.div_lt_iff_lt_mul hP, Nat.succ_eq_add_one, Nat.add_mul, Nat.add_mul,
    Nat.mul_comm (c / P)]
  omega

/-- **How often the counter goes up in a step.**  From any state that a machine can get into, in a
step in which the timer runs with the counter at the period `P`, the counter goes up once for each
period that the cycles of the step and those left over fill up.  That is within one of the periods
in the step if and only if not too many are left over; and they are less than the period at which
the counter has last run, so it is if that was no longer, or if the counter has never run. -/
theorem increments_in_step {boot rom : Option ByteArray} (hm : assemble boot rom = .ok m)
    (run : List Happening) {P : Nat} (hs : (run.foldl after m).step = ⟨.ok c, m'⟩)
    (hbus : (run.foldl after m).timerBus = some bus) (hP : (run.foldl after m).period? = some P) :
    let timer := (run.foldl after m).timer
    let n := (timer.counterCycles + c) / P
    (m'.bus = Timer.countUpBy n (timer.tickDivider bus c).2 ∧
        m'.bus.get .timerCounter =
          (Timer.nextCount (bus.get .timerModulo))^[n] (bus.get .timerCounter)) ∧
      (n ≤ c / P + 1 ↔ timer.counterCycles + c % P < 2 * P) ∧
      LessThanPeriod timer (m.lastPeriod none run) ∧
      ((∀ last ∈ m.lastPeriod none run, last ≤ P) → n ≤ c / P + 1) := by
  intro timer n
  obtain ⟨bus', hbus', hstep, -⟩ := timer_of_step hs
  obtain rfl : bus' = bus := Option.some.inj (hbus'.symm.trans hbus)
  obtain ⟨hon, hperiod⟩ := (period?_eq_some_iff hbus).1 hP
  have hn : timer.increments (bus'.get .timerControl) c = n := by
    rw [Timer.increments, if_pos hon, hperiod]
  have hpos : 0 < P := hperiod ▸ Timer.counterPeriod_pos _
  have hrest : LessThanPeriod timer (m.lastPeriod none run) :=
    lessThanPeriod_run (by rw [(SwitchedOn.of_assemble hm).timer_eq]; exact Nat.one_pos) run
  have hiff : n ≤ c / P + 1 ↔ timer.counterCycles + c % P < 2 * P :=
    div_le_iff_of_remainder hpos c
  refine ⟨⟨?_, ?_⟩, hiff, hrest, fun hlast ↦ hiff.2 ?_⟩
  · rw [hstep, Timer.tick_snd, hn]
  · rw [hstep, Timer.get_timerCounter_tick, hn]
  · -- less than one period is left over, and less than one more in the cycles of the step
    have hle : (m.lastPeriod none run).getD 1 ≤ P := by
      cases hl : m.lastPeriod none run with
      | none => exact hpos
      | some last => exact hlast last hl
    have hmod := Nat.mod_lt c hpos
    rw [LessThanPeriod] at hrest
    omega

/-- A step in which the rate is raised, and the bound is not kept. -/
theorem increments_in_step_raised :
    ∃ m m' bus, assemble (some rateProgram.bytes) none = .ok m ∧
      ([.step, .step, .step].foldl after m).step = ⟨.ok 12, m'⟩ ∧
      ([.step, .step, .step].foldl after m).timerBus = some bus ∧
      ([.step, .step, .step].foldl after m).period? = some 16 ∧
      m'.bus.get .timerCounter = (Timer.nextCount 0)^[2] 0 ∧
      ¬2 ≤ 12 / 16 + 1 ∧
      ¬∀ last ∈ m.lastPeriod none [.step, .step, .step], last ≤ 16 := by
  obtain ⟨m, m', bus, hm, hs, hbus, hP, hleft, hmodulo, hcount, -⟩ := raised_rate
  obtain ⟨⟨-, hget⟩, hiff, -, hle⟩ := increments_in_step hm [.step, .step, .step] hs hbus hP
  rw [hleft] at hget hiff hle
  rw [hmodulo, hcount] at hget
  have hmany : ¬2 ≤ 12 / 16 + 1 := fun h ↦ absurd (hiff.1 h) (by decide)
  exact ⟨m, m', bus, hm, hs, hbus, hP, hget, hmany, fun hlast ↦ hmany (hle hlast)⟩

/-- It is not true that the counter goes up at most once for each period in the step and once
more. -/
theorem not_always_within_period :
    ¬∀ (boot rom : Option ByteArray) (m : Machine), assemble boot rom = .ok m →
      ∀ (run : List Happening) (c P : Nat) (m' : Machine) (bus : SystemBus),
        (run.foldl after m).step = ⟨.ok c, m'⟩ → (run.foldl after m).timerBus = some bus →
          (run.foldl after m).period? = some P →
            ∃ n ≤ c / P + 1, m'.bus.get .timerCounter =
              (Timer.nextCount (bus.get .timerModulo))^[n] (bus.get .timerCounter) := by
  intro hall
  obtain ⟨m, m', bus, hm, hs, hbus, hP, -, hmodulo, hcount, hcount'⟩ := raised_rate
  obtain ⟨n, hn, hget⟩ := hall _ _ m hm _ 12 16 m' bus hs hbus hP
  rw [hmodulo, hcount, hcount'] at hget
  have hn' : n = 0 ∨ n = 1 := by omega
  rcases hn' with rfl | rfl <;> exact absurd hget (by decide)

end Machine
end Handheld
