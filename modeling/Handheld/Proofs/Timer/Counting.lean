import Handheld.Proofs.Machine.Devices
import Mathlib.Logic.Function.Iterate

/-!
# What the timer counts

A tick takes whole periods off the cycles that have been counted, one after the other, and each time
a register goes up; all in all that is a division (`Timer.countOff_eq`).

So in a tick the counter goes up some number of times, which depends on the control register, on the
cycles of the tick and on the cycles left over from earlier ones (`Timer.increments`).  Each time it
goes up by one, or starts again from the modulo register; seen from the counter register alone, a
tick is so many applications of `Timer.nextCount`.
-/

set_option autoImplicit false

namespace Handheld
namespace Timer

/-- The counter after it has gone up once. -/
def nextCount (modulo count : UInt8) : UInt8 := if count = 0xFF then modulo else count + 1

/-- How many times the counter goes up in a tick. -/
def increments (timer : Timer) (control : UInt8) (cycles : Nat) : Nat :=
  if isEnabled control then (timer.counterCycles + cycles) / counterPeriod control else 0

/-! ## Whole periods

The timer takes periods off one at a time.  There are as many of them as the quotient says, and what
is left over is the remainder. -/

variable {period : Nat}

/-- **Taking whole periods off is division.** -/
theorem countOff_eq (hpos : 0 < period) (goUp : SystemBus → SystemBus) (cycles : Nat)
    (bus : SystemBus) :
    countOff hpos goUp cycles bus = (cycles % period, goUp^[cycles / period] bus) := by
  fun_induction countOff hpos goUp cycles bus with
  | case1 cycles bus hle ih =>
    rw [ih, Nat.mod_eq_sub_mod hle, Nat.div_eq_sub_div hpos hle, Function.iterate_succ_apply]
  | case2 cycles bus hno =>
    have hlt := Nat.not_le.1 hno
    rw [Nat.mod_eq_of_lt hlt, Nat.div_eq_of_lt hlt, Function.iterate_zero_apply]

/-- The counter goes up `n` times. -/
def countUpBy : Nat → SystemBus → SystemBus
  | 0, bus => bus
  | n + 1, bus => countUpBy n (countUp bus)

theorem iterate_countUp (n : Nat) (bus : SystemBus) : countUp^[n] bus = countUpBy n bus := by
  induction n generalizing bus with
  | zero => rfl
  | succ n ih => exact ih (countUp bus)

theorem countUpBy_of {P : SystemBus → Prop} (hP : SystemBus.Unaffected registers P) (n : Nat)
    (bus : SystemBus) (h : P bus) : P (countUpBy n bus) := by
  induction n generalizing bus with
  | zero => exact h
  | succ n ih => exact ih _ (countUp_of hP bus h)

/-- The divider goes up `n` times, and round and round. -/
theorem iterate_dividerUp (n : Nat) (bus : SystemBus) :
    dividerUp^[n] bus = bus.set .divider (bus.get .divider + UInt8.ofNat n) := by
  induction n with
  | zero => simp [SystemBus.set_get_self]
  | succ n ih =>
    rw [Function.iterate_succ_apply', ih, dividerUp, SystemBus.set_set_self, SystemBus.get_set_self,
      UInt8.ofNat_add, UInt8.add_assoc]
    rfl

/-- The cycles left over for the divider: none if it has been written since the timer last ran. -/
def dividerLeft (timer : Timer) (bus : SystemBus) : Nat :=
  if bus.dividerReset then 0 else timer.dividerCycles

/-- The divider goes up by the whole periods, and the rest is left over. -/
theorem tickDivider_eq (timer : Timer) (bus : SystemBus) (cycles : Nat) :
    timer.tickDivider bus cycles =
      ({ timer with dividerCycles := (timer.dividerLeft bus + cycles) % dividerPeriod },
        { bus with dividerReset := false }.set .divider
          (bus.get .divider + UInt8.ofNat ((timer.dividerLeft bus + cycles) / dividerPeriod))) := by
  rw [tickDivider, countOff_eq, iterate_dividerUp]
  rfl

/-- So does the counter if it is switched on. -/
theorem tickCounter_eq (timer : Timer) (bus : SystemBus) (cycles : Nat) :
    timer.tickCounter bus cycles =
      if isEnabled (bus.get .timerControl) then
        let total := timer.counterCycles + cycles
        let period := counterPeriod (bus.get .timerControl)
        ({ timer with counterCycles := total % period }, countUpBy (total / period) bus)
      else (timer, bus) := by
  rw [tickCounter, countOff_eq, iterate_countUp]

/-! ## The counter register -/

theorem get_timerCounter_countUp (bus : SystemBus) :
    (countUp bus).get .timerCounter =
      nextCount (bus.get .timerModulo) (bus.get .timerCounter) := by
  rw [countUp, nextCount]
  split
  · rw [SystemBus.get_request_of_ne _ _ (by decide), SystemBus.get_set_self]
  · rw [SystemBus.get_set_self]

/-- What the counter starts again from does not change while it counts. -/
theorem get_timerModulo_countUp (bus : SystemBus) :
    (countUp bus).get .timerModulo = bus.get .timerModulo := by
  rw [countUp]
  split
  · rw [SystemBus.get_request_of_ne _ _ (by decide), SystemBus.get_set_of_ne _ _ (by decide)]
  · rw [SystemBus.get_set_of_ne _ _ (by decide)]

theorem get_timerCounter_countUpBy (n : Nat) (bus : SystemBus) :
    (countUpBy n bus).get .timerCounter =
      (nextCount (bus.get .timerModulo))^[n] (bus.get .timerCounter) := by
  induction n generalizing bus with
  | zero => rfl
  | succ n ih =>
    rw [countUpBy, ih, get_timerModulo_countUp, get_timerCounter_countUp,
      Function.iterate_succ_apply]

/-! ## Ticks -/

/-- The divider leaves the registers of the counter alone. -/
theorem get_tickDivider (timer : Timer) (bus : SystemBus) (cycles : Nat) {r : IoRegister}
    (hr : r ≠ .divider) : (timer.tickDivider bus cycles).2.get r = bus.get r := by
  rw [tickDivider_eq]
  exact SystemBus.get_set_of_ne { bus with dividerReset := false } _ hr

/-- A tick lets the divider run, and then the counter goes up `increments` times. -/
theorem tick_snd (timer : Timer) (bus : SystemBus) (cycles : Nat) :
    (timer.tick bus cycles).2 =
      countUpBy (timer.increments (bus.get .timerControl) cycles)
        (timer.tickDivider bus cycles).2 := by
  rw [tick]
  dsimp only
  rw [tickCounter_eq, get_tickDivider timer bus cycles (by decide), increments]
  dsimp only
  split <;> rfl

/-- The cycles left over after a tick. -/
theorem counterCycles_tick (timer : Timer) (bus : SystemBus) (cycles : Nat) :
    (timer.tick bus cycles).1.counterCycles =
      if isEnabled (bus.get .timerControl) then
        (timer.counterCycles + cycles) % counterPeriod (bus.get .timerControl)
      else timer.counterCycles := by
  rw [tick]
  dsimp only
  rw [tickCounter_eq, get_tickDivider timer bus cycles (by decide)]
  dsimp only
  split <;> rfl

theorem get_timerCounter_tick (timer : Timer) (bus : SystemBus) (cycles : Nat) :
    (timer.tick bus cycles).2.get .timerCounter =
      (nextCount (bus.get .timerModulo))^[timer.increments (bus.get .timerControl) cycles]
        (bus.get .timerCounter) := by
  rw [tick_snd, get_timerCounter_countUpBy, get_tickDivider timer bus cycles (by decide),
    get_tickDivider timer bus cycles (by decide)]

/-- The timer changes its own registers and the requests, and nothing else. -/
theorem tick_changesOnly (timer : Timer) (bus : SystemBus) (cycles : Nat) :
    bus.ChangesOnly (.interruptFlag :: registers) (timer.tick bus cycles).2 :=
  tick_bus_of ((SystemBus.Unaffected.changesOnly bus List.mem_cons_self).mono
    (List.subset_cons_self _ _)) timer bus cycles (.refl _ _)

end Timer
end Handheld
