import Handheld.Proofs.Timer.Counting
import Mathlib.Algebra.GroupWithZero.Nat

/-!
# The timer over a stretch of time

A tick counts the whole periods that are full and keeps the cycles that are left over, so a tick of
`m` cycles and one of `n` after it are a tick of `m + n` (`Timer.tick_tick`).  How a stretch of time
is cut into ticks does not matter, then, as long as there is one (`Timer.ticks_eq_tick`): cycles may
be left over from a longer period, and it takes a tick to count them.

What a single tick does can be said without counting.  If the counter had no bound it would stand at
`n`, the value it had and the times it has gone up.  Below 256 that is its value; from there on it
goes round and round between the modulo register and 255 (`Timer.countAt`), and it has asked for an
interrupt.  `Timer.counter_of_ticks` puts the two together.
-/

set_option autoImplicit false

namespace Handheld
namespace Timer

/-! ## Going round -/

/-- The counter when, without a bound, it would stand at `n`: from 256 on it goes round from
`modulo`. -/
def countAt (modulo n : Nat) : Nat :=
  if n < 256 then n else modulo + (n - 256) % (256 - modulo)

theorem countAt_of_lt {modulo n : Nat} (h : n < 256) : countAt modulo n = n := if_pos h

/-- One more: from 255 to `modulo`, and else up by one. -/
theorem countAt_succ {modulo : Nat} (h : modulo < 256) (n : Nat) :
    countAt modulo (n + 1) =
      if countAt modulo n = 255 then modulo else countAt modulo n + 1 := by
  rcases Nat.lt_trichotomy n 255 with hlt | rfl | hgt
  · rw [countAt_of_lt (by omega), countAt_of_lt (by omega), if_neg (by omega)]
  · simp [countAt]
  · -- once round and further on: the place in the round is what goes up
    have hround : countAt modulo (n + 1) =
        modulo + ((n - 256) % (256 - modulo) + 1) % (256 - modulo) := by
      rw [countAt, if_neg (by omega), Nat.mod_add_mod, Nat.sub_add_comm (by omega)]
    have hplace : countAt modulo n = modulo + (n - 256) % (256 - modulo) := if_neg (by omega)
    have hlt : (n - 256) % (256 - modulo) < 256 - modulo := Nat.mod_lt _ (by omega)
    rw [hround, hplace]
    generalize (n - 256) % (256 - modulo) = place at hlt ⊢
    by_cases hlast : place + 1 = 256 - modulo
    · rw [hlast, Nat.mod_self, if_pos (by omega), Nat.add_zero]
    · rw [Nat.mod_eq_of_lt (by omega), if_neg (by omega), Nat.add_assoc]

/-- Going round takes the counter to 255 at 255 and later, never before. -/
theorem le_of_countAt_eq {modulo n : Nat} (h : countAt modulo n = 255) : 255 ≤ n := by
  by_cases hlt : n < 256
  · rw [countAt_of_lt hlt] at h
    omega
  · omega

theorem toNat_nextCount (modulo count : UInt8) :
    (nextCount modulo count).toNat =
      if count.toNat = 255 then modulo.toNat else count.toNat + 1 := by
  have hlast : count = 0xFF ↔ count.toNat = 255 := UInt8.toNat_inj.symm
  rw [nextCount]
  by_cases h : count = 0xFF
  · rw [if_pos h, if_pos (hlast.1 h)]
  · have hlt := count.toNat_lt
    have hne := mt hlast.2 h
    rw [if_neg h, if_neg hne, UInt8.toNat_add]
    exact Nat.mod_eq_of_lt (by simp; omega)

/-- **The counter after it has gone up `k` times.** -/
theorem toNat_iterate_nextCount (modulo count : UInt8) (k : Nat) :
    ((nextCount modulo)^[k] count).toNat = countAt modulo.toNat (count.toNat + k) := by
  induction k with
  | zero => exact (countAt_of_lt count.toNat_lt).symm
  | succ k ih =>
    rw [Function.iterate_succ_apply', toNat_nextCount, ih, ← Nat.add_assoc,
      countAt_succ modulo.toNat_lt]

/-! ## What counting does to the bus -/

theorem countUpBy_add (m n : Nat) (bus : SystemBus) :
    countUpBy (m + n) bus = countUpBy n (countUpBy m bus) := by
  induction m generalizing bus with
  | zero => rw [Nat.zero_add, countUpBy]
  | succ m ih => rw [Nat.succ_add, countUpBy, ih, countUpBy]

theorem get_interruptFlag_countUp (bus : SystemBus) :
    (countUp bus).get .interruptFlag =
      if (bus.get .timerCounter).toNat = 255 then
        bus.get .interruptFlag ||| Interrupt.timer.mask
      else bus.get .interruptFlag := by
  have hlast : bus.get .timerCounter = 0xFF ↔ (bus.get .timerCounter).toNat = 255 :=
    UInt8.toNat_inj.symm
  rw [countUp]
  by_cases h : bus.get .timerCounter = 0xFF
  · rw [if_pos h, if_pos (hlast.1 h), SystemBus.get_interruptFlag_request,
      SystemBus.get_set_of_ne _ _ (by decide)]
  · rw [if_neg h, if_neg (mt hlast.2 h), SystemBus.get_set_of_ne _ _ (by decide)]

/-- **The interrupt is asked for if the counter would get to 256 or beyond.** -/
theorem get_interruptFlag_countUpBy (n : Nat) (bus : SystemBus) :
    (countUpBy n bus).get .interruptFlag =
      if (bus.get .timerCounter).toNat + n < 256 then bus.get .interruptFlag
      else bus.get .interruptFlag ||| Interrupt.timer.mask := by
  induction n with
  | zero => exact (if_pos (bus.get .timerCounter).toNat_lt).symm
  | succ n ih =>
    rw [countUpBy_add n 1, countUpBy, countUpBy, get_interruptFlag_countUp, ih,
      get_timerCounter_countUpBy, toNat_iterate_nextCount]
    generalize (bus.get .timerCounter).toNat = count
    rcases Nat.lt_trichotomy (count + n) 255 with hlt | heq | hgt
    · have hbefore : ¬countAt (bus.get .timerModulo).toNat (count + n) = 255 := fun h ↦
        absurd (le_of_countAt_eq h) (Nat.not_le.2 hlt)
      rw [if_neg hbefore, if_pos (by omega), if_pos (by omega)]
    · rw [heq, if_pos (countAt_of_lt (by decide)), if_pos (by decide), if_neg (by omega)]
    · rw [if_neg (show ¬count + n < 256 by omega), if_neg (show ¬count + (n + 1) < 256 by omega),
        UInt8.or_assoc, UInt8.or_self, ite_self]

/-- Registers other than those of the counter have no part in it. -/
theorem countUp_set (bus : SystemBus) {r : IoRegister} (v : UInt8)
    (hr : r ∉ [.timerCounter, .timerModulo, .interruptFlag]) :
    countUp (bus.set r v) = (countUp bus).set r v := by
  simp only [List.mem_cons, List.not_mem_nil, or_false, not_or] at hr
  obtain ⟨hcounter, hmodulo, hflag⟩ := hr
  rw [countUp, countUp, SystemBus.get_set_of_ne _ _ (Ne.symm hcounter),
    SystemBus.get_set_of_ne _ _ (Ne.symm hmodulo)]
  split
  · rw [SystemBus.set_set_of_ne _ _ _ (Ne.symm hcounter), SystemBus.request_set_of_ne _ _ _ hflag]
  · rw [SystemBus.set_set_of_ne _ _ _ (Ne.symm hcounter)]

theorem countUpBy_set (n : Nat) (bus : SystemBus) {r : IoRegister} (v : UInt8)
    (hr : r ∉ [.timerCounter, .timerModulo, .interruptFlag]) :
    countUpBy n (bus.set r v) = (countUpBy n bus).set r v := by
  induction n generalizing bus with
  | zero => rfl
  | succ n ih => rw [countUpBy, countUp_set bus v hr, ih, countUpBy]

/-! ## One tick -/

/-- The cycles left over after a tick. -/
theorem tick_fst (timer : Timer) (bus : SystemBus) (cycles : Nat) :
    (timer.tick bus cycles).1 =
      { dividerCycles := (timer.dividerLeft bus + cycles) % dividerPeriod
        counterCycles :=
          if isEnabled (bus.get .timerControl) then
            (timer.counterCycles + cycles) % counterPeriod (bus.get .timerControl)
          else timer.counterCycles } := by
  rw [← counterCycles_tick, tick]
  dsimp only
  rw [tickCounter]
  dsimp only
  split <;> rw [tickDivider_eq]

/-- The bus after a tick: the counter has gone up, and then the divider has. -/
theorem tick_bus (timer : Timer) (bus : SystemBus) (cycles : Nat) :
    (timer.tick bus cycles).2 =
      (countUpBy (timer.increments (bus.get .timerControl) cycles)
          { bus with dividerReset := false }).set .divider
        (bus.get .divider + UInt8.ofNat ((timer.dividerLeft bus + cycles) / dividerPeriod)) := by
  rw [tick_snd, tickDivider_eq, ← countUpBy_set _ _ _ (by decide)]

theorem get_divider_tick (timer : Timer) (bus : SystemBus) (cycles : Nat) :
    (timer.tick bus cycles).2.get .divider =
      bus.get .divider + UInt8.ofNat ((timer.dividerLeft bus + cycles) / dividerPeriod) := by
  rw [tick_bus, SystemBus.get_set_self]

/-- No device notes that the divider has been written. -/
theorem unaffected_dividerReset (registers : List IoRegister) :
    SystemBus.Unaffected registers fun bus ↦ bus.dividerReset = false where
  set _ _ _ _ h := h
  request _ _ h := h
  setHeld _ group _ h := by
    cases group <;> exact h
  resetSeen _ _ := rfl

/-- A tick takes the note that the divider has been written. -/
theorem dividerReset_tick (timer : Timer) (bus : SystemBus) (cycles : Nat) :
    (timer.tick bus cycles).2.dividerReset = false := by
  rw [tick_bus]
  exact countUpBy_of (unaffected_dividerReset _) _ { bus with dividerReset := false } rfl

/-! ## Many ticks -/

/-- Whole periods, first of some cycles and then of those left over and some more. -/
theorem div_add_div (n m : Nat) {period : Nat} (h : 0 < period) :
    n / period + (n % period + m) / period = (n + m) / period := by
  have hn := Nat.div_add_mod n period
  rw [← Nat.mul_add_div h, ← Nat.add_assoc, hn]

theorem increments_add (timer : Timer) (control : UInt8) (m n left : Nat) :
    timer.increments control m +
        increments
          ⟨left, if isEnabled control then (timer.counterCycles + m) % counterPeriod control
            else timer.counterCycles⟩ control n =
      timer.increments control (m + n) := by
  rw [increments, increments, increments]
  by_cases hon : isEnabled control = true
  · simp only [if_pos hon]
    rw [div_add_div _ _ (counterPeriod_pos control), Nat.add_assoc]
  · simp only [if_neg hon]

/-- **One tick after the other is one tick.** -/
theorem tick_tick (timer : Timer) (bus : SystemBus) (m n : Nat) :
    (timer.tick bus m).1.tick (timer.tick bus m).2 n = timer.tick bus (m + n) := by
  have hcontrol : (timer.tick bus m).2.get .timerControl = bus.get .timerControl :=
    (timer.tick_changesOnly bus m).get_eq (by decide)
  have hreset := timer.dividerReset_tick bus m
  have hdivider := timer.get_divider_tick bus m
  have hleft : (timer.tick bus m).1.dividerLeft (timer.tick bus m).2 =
      (timer.dividerLeft bus + m) % dividerPeriod := by
    rw [dividerLeft, hreset, if_neg Bool.false_ne_true, tick_fst]
  refine Prod.ext ?_ ?_
  · rw [tick_fst _ (timer.tick bus m).2, hcontrol, hleft, counterCycles_tick, tick_fst timer bus,
      Nat.mod_add_mod, Nat.add_assoc]
    by_cases hon : isEnabled (bus.get .timerControl) = true
    · simp only [if_pos hon, Nat.mod_add_mod, Nat.add_assoc]
    · simp only [if_neg hon]
  · have hquiet : { (timer.tick bus m).2 with dividerReset := false } = (timer.tick bus m).2 := by
      rw [← hreset]
    rw [tick_bus, tick_bus _ _ (m + n), hcontrol, hleft, hquiet, hdivider, UInt8.add_assoc,
      ← UInt8.ofNat_add, div_add_div _ _ (by decide), Nat.add_assoc, tick_bus,
      countUpBy_set _ _ _ (by decide), SystemBus.set_set_self, ← countUpBy_add, tick_fst,
      increments_add]

/-- The timer runs for some stretches, one after the other, and nothing else is done to the bus. -/
def ticks (timer : Timer) (bus : SystemBus) : List Nat → Timer × SystemBus
  | [] => (timer, bus)
  | cycles :: rest => (timer.tick bus cycles).1.ticks (timer.tick bus cycles).2 rest

/-- **How time is cut into ticks does not matter.** -/
theorem ticks_eq_tick (timer : Timer) (bus : SystemBus) {lengths : List Nat} (h : lengths ≠ []) :
    timer.ticks bus lengths = timer.tick bus lengths.sum := by
  induction lengths generalizing timer bus with
  | nil => exact absurd rfl h
  | cons cycles rest ih =>
    rw [ticks]
    by_cases hrest : rest = []
    · subst hrest
      rw [ticks, List.sum_cons, List.sum_nil, Nat.add_zero]
    · rw [ih _ _ hrest, tick_tick, List.sum_cons]

/-! ## The registers after many ticks -/

/-- While the counter is at rest, only the divider moves. -/
theorem tick_changesOnly_of_off (timer : Timer) {bus : SystemBus}
    (hoff : isEnabled (bus.get .timerControl) = false) (cycles : Nat) :
    bus.ChangesOnly [.divider] (timer.tick bus cycles).2 := by
  have hnone : timer.increments (bus.get .timerControl) cycles = 0 := by
    rw [increments, hoff, if_neg Bool.false_ne_true]
  have hsame : bus.ChangesOnly [.divider] { bus with dividerReset := false } :=
    ⟨rfl, fun _ _ ↦ rfl⟩
  rw [tick_bus, hnone]
  exact hsame.set List.mem_cons_self _

/-- **The counter after a stretch of time.**  The timer runs for some stretches, at least one, from
any state, and nothing else is done to the bus.  It is then as after a single tick of their sum.
With the counter switched on, at the period `P`, and `k` the whole periods that the time and the
cycles left over from before fill, the rest of the cycles is left over; the counter has gone up by
`k`, from 255 to the modulo register and so round; the interrupt is asked for if it has been at 255
and gone up, and nothing else but the divider has changed.  With the counter switched off the
divider alone has changed. -/
theorem counter_of_ticks (timer : Timer) (bus : SystemBus) {lengths : List Nat}
    (h : lengths ≠ []) :
    let after := timer.ticks bus lengths
    let control := bus.get .timerControl
    let total := timer.counterCycles + lengths.sum
    let k := total / counterPeriod control
    let count := (bus.get .timerCounter).toNat
    let modulo := (bus.get .timerModulo).toNat
    after = timer.tick bus lengths.sum ∧
      (isEnabled control = true →
        after.1.counterCycles = total % counterPeriod control ∧
          (after.2.get .timerCounter).toNat =
            (if count + k < 256 then count + k
              else modulo + (count + k - 256) % (256 - modulo)) ∧
          after.2.get .interruptFlag =
            (if count + k < 256 then bus.get .interruptFlag
              else bus.get .interruptFlag ||| Interrupt.timer.mask) ∧
          bus.ChangesOnly [.divider, .timerCounter, .interruptFlag] after.2) ∧
      (isEnabled control = false →
        after.1.counterCycles = timer.counterCycles ∧ bus.ChangesOnly [.divider] after.2) := by
  intro after control total k count modulo
  have hafter : after = timer.tick bus lengths.sum := ticks_eq_tick timer bus h
  refine ⟨hafter, fun hon ↦ ?_, fun hoff ↦ ?_⟩
  · have hk : timer.increments control lengths.sum = k := by
      rw [increments, if_pos hon]
    rw [hafter]
    refine ⟨?_, ?_, ?_, (timer.tick_changesOnly bus _).mono (by decide)⟩
    · rw [counterCycles_tick, if_pos hon]
    · rw [get_timerCounter_tick, hk, toNat_iterate_nextCount]
      rfl
    · rw [tick_snd, hk, get_interruptFlag_countUpBy, get_tickDivider _ _ _ (by decide),
        get_tickDivider _ _ _ (by decide)]
  · rw [hafter]
    refine ⟨?_, timer.tick_changesOnly_of_off hoff _⟩
    rw [counterCycles_tick, if_neg (Bool.eq_false_iff.1 hoff)]

/-- With all ones in the modulo register each time the counter goes up is an overflow: three times
within four ticks, of which one is empty. -/
theorem counter_of_ticks_allOnes :
    let bus := ((SystemBus.blank.set .timerControl 5).set .timerModulo 0xFF).set .timerCounter 0xFE
    let after := Timer.ticks ⟨0, 15⟩ bus [1, 0, 16, 16]
    after = Timer.tick ⟨0, 15⟩ bus 33 ∧ after.1.counterCycles = 0 ∧
      (after.2.get .timerCounter).toNat = 0xFF ∧ after.2.get .interruptFlag = 0x04 := by
  intro bus after
  have hget (r : IoRegister) : SystemBus.blank.get r = 0 := SystemBus.isBlank_blank.peek_eq _
  have hcontrol : bus.get .timerControl = 5 := by
    rw [SystemBus.get_set_of_ne _ _ (by decide), SystemBus.get_set_of_ne _ _ (by decide),
      SystemBus.get_set_self]
  have hmodulo : bus.get .timerModulo = 0xFF := by
    rw [SystemBus.get_set_of_ne _ _ (by decide), SystemBus.get_set_self]
  have hcount : bus.get .timerCounter = 0xFE := SystemBus.get_set_self _ _ _
  have hflag : bus.get .interruptFlag = 0 := by
    rw [SystemBus.get_set_of_ne _ _ (by decide), SystemBus.get_set_of_ne _ _ (by decide),
      SystemBus.get_set_of_ne _ _ (by decide), hget]
  obtain ⟨hsum, hon, -⟩ := counter_of_ticks ⟨0, 15⟩ bus (List.cons_ne_nil 1 [0, 16, 16])
  rw [hcontrol, hmodulo, hcount, hflag] at hon
  obtain ⟨hleft, hcounter, hrequests, -⟩ := hon (by decide)
  exact ⟨hsum, hleft, hcounter, hrequests⟩

end Timer
end Handheld
