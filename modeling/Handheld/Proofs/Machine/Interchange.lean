import Handheld.Proofs.Timer.Ticks
import Handheld.Proofs.Video.Sources

/-!
# The order of the devices

In a step of the machine the picture unit runs first and the timer after it.  They share the memory
image, and in it the byte in which both ask for interrupts; but it would make no difference if they
ran the other way round (`Machine.devices_interchange`).

The picture unit is `Scan.Blind` to a relation between buses if related buses look the same to it
and stay related when it has done the same to both.  Then it does the same to both for any length of
time, up to the same failure if there is one (`Scan.Blind.tick`).  To be where the timer gets in
some number of cycles is such a relation (`Timer.blind_ticksTo`): the timer counts in registers that
no picture is made from, and a request that one device makes is still there, and is not in the way,
when the other makes its own.
-/

set_option autoImplicit false

namespace Handheld
namespace Scan

variable {R : SystemBus → SystemBus → Prop} {s s' : Scan}

/-! ## What the picture unit does not see -/

/-- The picture unit takes related buses for the same, and leaves them related. -/
structure Blind (R : SystemBus → SystemBus → Prop) : Prop where
  get_eq : ∀ {bus bus'}, R bus bus' → ∀ r ∈ [.lcdStatus, .lcdYCompare], bus'.get r = bus.get r
  sources : ∀ {bus bus'}, R bus bus' → SameSources bus bus'
  set : ∀ {bus bus'}, R bus bus' → ∀ r ∈ Ppu.registers, ∀ v, R (bus.set r v) (bus'.set r v)
  request : ∀ {bus bus'}, R bus bus' → ∀ source, R (bus.request source) (bus'.request source)

/-- Picture units in the same state, on related buses. -/
structure Alike (R : SystemBus → SystemBus → Prop) (s s' : Scan) : Prop where
  ppu_eq : s'.ppu = s.ppu
  bus : R s.bus s'.bus

/-- The same answer, and picture units that are alike. -/
structure EndAlike (R : SystemBus → SystemBus → Prop) (o o' : Outcome Scan Unit) : Prop where
  answer_eq : o'.answer = o.answer
  state : Alike R o.state o'.state

namespace Blind

theorem advance (hR : Blind R) (h : Alike R s s') (dots : Nat) :
    Alike R (s.advance dots) (s'.advance dots) := by
  obtain ⟨ppu, bus⟩ := s
  obtain ⟨ppu', bus'⟩ := s'
  obtain ⟨hppu, h⟩ := h
  obtain rfl : ppu' = ppu := hppu
  rw [Scan.advance, Scan.advance]
  dsimp only
  split
  · exact ⟨rfl, h⟩
  · exact ⟨rfl, hR.set h _ (by decide) _⟩

theorem drawLine (hR : Blind R) (h : Alike R s s') : EndAlike R s.drawLine s'.drawLine := by
  obtain ⟨ppu, bus⟩ := s
  obtain ⟨ppu', bus'⟩ := s'
  obtain ⟨hppu, h⟩ := h
  obtain rfl : ppu' = ppu := hppu
  have hsources := hR.sources h
  rw [Scan.drawLine, Scan.drawLine]
  dsimp only
  rw [hsources.lcdControl_eq]
  split
  · rename_i hline
    rw [Scanline.render_congr hsources (Nat.lt_trans hline (by decide))]
    split
    · exact ⟨rfl, rfl, h⟩
    · exact ⟨rfl, rfl, h⟩
  · exact ⟨rfl, rfl, h⟩

theorem updateMode (hR : Blind R) (h : Alike R s s') : EndAlike R s.updateMode s'.updateMode := by
  obtain ⟨ppu, bus⟩ := s
  obtain ⟨ppu', bus'⟩ := s'
  obtain ⟨hppu, h⟩ := h
  obtain rfl : ppu' = ppu := hppu
  rw [Scan.updateMode, Scan.updateMode]
  dsimp only
  split
  · exact ⟨rfl, rfl, h⟩
  · split
    · exact hR.drawLine ⟨rfl, h⟩
    · exact ⟨rfl, rfl, hR.request h .vBlank⟩
    · exact ⟨rfl, rfl, h⟩
    · exact ⟨rfl, rfl, h⟩

theorem updateStatus (hR : Blind R) (h : Alike R s s') :
    Alike R s.updateStatus s'.updateStatus := by
  obtain ⟨ppu, bus⟩ := s
  obtain ⟨ppu', bus'⟩ := s'
  obtain ⟨hppu, h⟩ := h
  obtain rfl : ppu' = ppu := hppu
  have hselect := hR.get_eq h .lcdStatus (by decide)
  have hcoincidence : coincidence ⟨ppu', bus'⟩ = coincidence ⟨ppu', bus⟩ := by
    rw [coincidence, hR.get_eq h .lcdYCompare (by decide), coincidence]
  have hcondition : statCondition ⟨ppu', bus'⟩ = statCondition ⟨ppu', bus⟩ := by
    rw [statCondition, hselect, hcoincidence, statCondition]
  have hstatus : status ⟨ppu', bus'⟩ = status ⟨ppu', bus⟩ := by
    rw [status, hselect, hcoincidence, status]
  have hset := hR.set h .lcdStatus (by decide) (status ⟨ppu', bus⟩)
  rw [Scan.updateStatus, Scan.updateStatus, hcondition, hstatus]
  refine ⟨rfl, ?_⟩
  dsimp only
  split
  · exact hR.request hset .lcdStat
  · exact hset

theorem chunk (hR : Blind R) (h : Alike R s s') (dots : Nat) :
    EndAlike R (s.chunk dots) (s'.chunk dots) := by
  obtain ⟨hanswer, hmoved⟩ := hR.updateMode (hR.advance h dots)
  rw [Scan.chunk, Scan.chunk, hanswer]
  split
  · exact ⟨rfl, hR.updateStatus hmoved⟩
  · exact ⟨rfl, hmoved⟩

/-- **What the picture unit does not see makes no difference to it**, by induction over its
chunks. -/
theorem tick (hR : Blind R) (h : Alike R s s') (dots : Nat) :
    EndAlike R (s.tick dots) (s'.tick dots) := by
  induction s, dots using tick_induction generalizing s' with
  | zero s =>
    rw [tick_zero, tick_zero]
    exact ⟨rfl, h⟩
  | chunk s dots hdots ih =>
    obtain ⟨hanswer, hstate⟩ := hR.chunk h (min dots (dotsToBoundary s.ppu.dot))
    rw [tick_eq_chunk hdots, tick_eq_chunk hdots, h.ppu_eq]
    generalize s.chunk _ = done at hanswer hstate ⊢
    generalize s'.chunk _ = done' at hanswer hstate ⊢
    obtain ⟨answer, after⟩ := done
    obtain ⟨answer', after'⟩ := done'
    obtain rfl : answer' = answer := hanswer
    cases answer' with
    | error e => exact ⟨rfl, hstate⟩
    | ok => exact ih after hstate

end Blind
end Scan

/-! ## What the timer does not see -/

namespace Timer

variable {timer timer' : Timer} {bus bus' : SystemBus}

theorem countUp_request (bus : SystemBus) (source : Interrupt) :
    countUp (bus.request source) = (countUp bus).request source := by
  rw [countUp, countUp, SystemBus.get_request_of_ne _ _ (by decide),
    SystemBus.get_request_of_ne _ _ (by decide)]
  split
  · rw [← SystemBus.request_set_of_ne _ _ _ (by decide), SystemBus.request_request]
  · rw [SystemBus.request_set_of_ne _ _ _ (by decide)]

theorem countUpBy_request (n : Nat) (bus : SystemBus) (source : Interrupt) :
    countUpBy n (bus.request source) = (countUpBy n bus).request source := by
  induction n generalizing bus with
  | zero => rfl
  | succ n ih => rw [countUpBy, countUp_request, ih, countUpBy]

/-- A tick is the same after a register has been set that is none of the timer's. -/
theorem tick_set (timer : Timer) (bus : SystemBus) {r : IoRegister} (v : UInt8)
    (hr : r ∉ [.divider, .timerCounter, .timerModulo, .timerControl, .interruptFlag])
    (cycles : Nat) :
    timer.tick (bus.set r v) cycles =
      ((timer.tick bus cycles).1, (timer.tick bus cycles).2.set r v) := by
  have hget {q : IoRegister}
      (hq : q ∈ [.divider, .timerCounter, .timerModulo, .timerControl, .interruptFlag]) :
      (bus.set r v).get q = bus.get q := by
    refine SystemBus.get_set_of_ne _ _ ?_
    rintro rfl
    exact hr hq
  have hleft : timer.dividerLeft (bus.set r v) = timer.dividerLeft bus := rfl
  have hdivider : r ≠ .divider := fun e ↦ hr (e ▸ List.mem_cons_self)
  have hcounter : r ∉ [.timerCounter, .timerModulo, .interruptFlag] := by
    revert hr
    cases r <;> decide
  refine Prod.ext ?_ ?_
  · rw [tick_fst, tick_fst, hleft, hget (by decide)]
  · show (timer.tick (bus.set r v) cycles).2 = (timer.tick bus cycles).2.set r v
    rw [tick_bus, tick_bus, hleft, hget (by decide), hget (by decide),
      SystemBus.set_set_of_ne _ _ _ hdivider, ← countUpBy_set _ _ _ hcounter]
    rfl

/-- A tick is the same after a request. -/
theorem tick_request (timer : Timer) (bus : SystemBus) (source : Interrupt) (cycles : Nat) :
    timer.tick (bus.request source) cycles =
      ((timer.tick bus cycles).1, (timer.tick bus cycles).2.request source) := by
  have hget {q : IoRegister} (hq : q ≠ .interruptFlag) :
      (bus.request source).get q = bus.get q := SystemBus.get_request_of_ne _ _ hq
  have hleft : timer.dividerLeft (bus.request source) = timer.dividerLeft bus := rfl
  refine Prod.ext ?_ ?_
  · rw [tick_fst, tick_fst, hleft, hget (by decide)]
  · show (timer.tick (bus.request source) cycles).2 = (timer.tick bus cycles).2.request source
    rw [tick_bus, tick_bus, hleft, hget (by decide), hget (by decide),
      SystemBus.request_set_of_ne _ _ _ (by decide), ← countUpBy_request]
    rfl

/-- The timer gets from one bus to another in some cycles. -/
def TicksTo (timer timer' : Timer) (cycles : Nat) (bus bus' : SystemBus) : Prop :=
  timer.tick bus cycles = (timer', bus')

/-- **The picture unit does not see that the timer has run.** -/
theorem blind_ticksTo (timer timer' : Timer) (cycles : Nat) :
    Scan.Blind (TicksTo timer timer' cycles) := by
  have hchanges {bus bus'} (h : TicksTo timer timer' cycles bus bus') :
      bus.ChangesOnly (.interruptFlag :: registers) bus' := by
    have hbus := timer.tick_changesOnly bus cycles
    rw [h] at hbus
    exact hbus
  refine ⟨fun h r hr ↦ ?_, fun h ↦ (hchanges h).sameSources (by decide), fun h r hr v ↦ ?_,
    fun h source ↦ ?_⟩
  · refine (hchanges h).get_eq ?_
    revert r
    decide
  · rw [TicksTo, tick_set _ _ _ (by revert r; decide), h]
  · rw [TicksTo, tick_request, h]

end Timer

/-! ## Both of them -/

namespace Machine

/-- **The devices can run in either order.**  From any state of the picture unit, the timer and the
bus, the picture unit for some dots and then the timer for some cycles leave what the timer and then
the picture unit leave: the same picture unit, screen included, the same timer and the same bus; and
if the picture unit fails in one of the two orders it fails in the other, for the same reason. -/
theorem devices_interchange (s : Scan) (timer : Timer) (dots cycles : Nat) :
    let ahead := timer.tick s.bus cycles
    let after := Scan.tick ⟨s.ppu, ahead.2⟩ dots
    after.answer = (s.tick dots).answer ∧ after.state.ppu = (s.tick dots).state.ppu ∧
      timer.tick (s.tick dots).state.bus cycles = (ahead.1, after.state.bus) := by
  intro ahead after
  have hstart : Scan.Alike (timer.TicksTo ahead.1 cycles) s ⟨s.ppu, ahead.2⟩ := ⟨rfl, rfl⟩
  obtain ⟨hanswer, hppu, hbus⟩ := (timer.blind_ticksTo ahead.1 cycles).tick hstart dots
  exact ⟨hanswer, hppu, hbus⟩

end Machine
end Handheld
