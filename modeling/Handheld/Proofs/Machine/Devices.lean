import Handheld.Proofs.Bus.Store
import Handheld.Proofs.Video.DotByDot

/-!
# What the devices do to the bus

A device acts on the bus in two ways: it sets registers of its own, and it requests interrupts.  So
whatever these two preserve, the device preserves: `Scan.tick_bus_of` says so of the picture unit,
`Timer.tick_bus_of` of the timer, `SystemBus.applyKeys_of` of the keys, and `Machine.step_bus_of` of
all that happens in a step of the machine once the processor has made its own.  The property may be
of any kind; `SystemBus.Unaffected` is what is asked of it.

The property that is used most often is that a bus still agrees with an earlier one, the registers
of the devices apart (`SystemBus.ChangesOnly`).  It is what a device leaves alone.
-/

set_option autoImplicit false

namespace Handheld

/-! ## What stays the same -/

namespace SystemBus

/-- Two buses agree everywhere but at some registers, and have the same boot ROM. -/
structure ChangesOnly (registers : List IoRegister) (bus bus' : SystemBus) : Prop where
  bootRom_eq : bus'.bootRom = bus.bootRom
  peek_eq : ∀ a, (∀ r ∈ registers, a ≠ r.address) → bus'.peek a = bus.peek a

namespace ChangesOnly

variable {registers : List IoRegister} {bus bus' bus'' : SystemBus}

theorem refl (registers : List IoRegister) (bus : SystemBus) : bus.ChangesOnly registers bus :=
  ⟨rfl, fun _ _ ↦ rfl⟩

theorem trans (h : bus.ChangesOnly registers bus') (h' : bus'.ChangesOnly registers bus'') :
    bus.ChangesOnly registers bus'' :=
  ⟨h'.bootRom_eq.trans h.bootRom_eq, fun a ha ↦ (h'.peek_eq a ha).trans (h.peek_eq a ha)⟩

theorem mono {more : List IoRegister} (h : bus.ChangesOnly registers bus')
    (hsub : registers ⊆ more) : bus.ChangesOnly more bus' :=
  ⟨h.bootRom_eq, fun a ha ↦ h.peek_eq a fun r hr ↦ ha r (hsub hr)⟩

theorem set (h : bus.ChangesOnly registers bus') {r : IoRegister} (hr : r ∈ registers)
    (v : UInt8) : bus.ChangesOnly registers (bus'.set r v) :=
  ⟨h.bootRom_eq, fun a ha ↦ (peek_poke_of_ne bus' v (ha r hr)).trans (h.peek_eq a ha)⟩

theorem get_eq (h : bus.ChangesOnly registers bus') {r : IoRegister} (hr : r ∉ registers) :
    bus'.get r = bus.get r :=
  h.peek_eq _ fun _ hq e ↦ hr (IoRegister.address_inj.1 e ▸ hq)

/-- The registers are all above the sprite table, so nothing below its end changes. -/
theorem peek_eq_of_lt (h : bus.ChangesOnly registers bus') {a : UInt16} (ha : a < 0xFF00) :
    bus'.peek a = bus.peek a := by
  refine h.peek_eq a fun r _ e ↦ ?_
  rw [e] at ha
  exact absurd ha (by cases r <;> decide)

end ChangesOnly

/-- A store to a register changes that register alone, unless it starts a transfer or may switch the
boot ROM off. -/
theorem write_changesOnly (bus : SystemBus) {r : IoRegister} (v : UInt8)
    (h : r ∉ [.spriteTransfer, .bootOff]) : bus.ChangesOnly [r] (bus.write r.address v) := by
  have hset (w : UInt8) : bus.ChangesOnly [r] (bus.set r w) :=
    (ChangesOnly.refl _ bus).set List.mem_cons_self w
  by_cases hplain : r ∈ [.joypad, .divider, .interruptFlag, .spriteTransfer, .bootOff]
  · simp only [List.mem_cons, List.not_mem_nil, or_false, not_or] at h hplain
    rcases hplain with rfl | rfl | rfl | rfl | rfl
    · exact (hset v).set List.mem_cons_self _
    · exact ⟨rfl, (hset 0).peek_eq⟩
    · exact hset _
    · exact absurd rfl h.1
    · exact absurd rfl h.2
  · rw [write_plain bus v hplain]
    exact hset v

/-- A device with some registers cannot change whether `P` holds: setting one of them preserves it,
and so do requests, changes of the keys held down, and the note that the divider was written. -/
structure Unaffected (registers : List IoRegister) (P : SystemBus → Prop) : Prop where
  set : ∀ bus, ∀ r ∈ registers, ∀ v, P bus → P (bus.set r v)
  request : ∀ bus source, P bus → P (bus.request source)
  setHeld : ∀ bus group keys, P bus → P (bus.setHeld group keys)
  resetSeen : ∀ bus, P bus → P { bus with dividerReset := false }

namespace Unaffected

variable {registers : List IoRegister} {P : SystemBus → Prop}

theorem mono {fewer : List IoRegister} (h : Unaffected registers P) (hsub : fewer ⊆ registers) :
    Unaffected fewer P :=
  { h with set := fun bus r hr ↦ h.set bus r (hsub hr) }

/-- A device agrees with what was before, its registers and the requests apart. -/
theorem changesOnly (bus : SystemBus) (hif : .interruptFlag ∈ registers) :
    Unaffected registers (bus.ChangesOnly registers) where
  set _ _ hr v h := h.set hr v
  request _ _ h := h.set hif _
  setHeld _ group _ h := by
    cases group <;> exact ⟨h.bootRom_eq, h.peek_eq⟩
  resetSeen _ h := ⟨h.bootRom_eq, h.peek_eq⟩

/-- What is said of the request byte, and holds of more requests if it holds of fewer. -/
theorem ofRequests {P : UInt8 → Prop}
    (hP : ∀ (requests : UInt8) (source : Interrupt), P requests → P (requests ||| source.mask))
    (hif : .interruptFlag ∉ registers) :
    Unaffected registers fun bus ↦ P (bus.get .interruptFlag) where
  set bus r hr v h := by
    have hne : IoRegister.interruptFlag ≠ r := by
      rintro rfl
      exact hif hr
    rw [get_set_of_ne bus v hne]
    exact h
  request bus source h := by
    rw [get_interruptFlag_request]
    exact hP _ _ h
  setHeld _ group _ h := by
    cases group <;> exact h
  resetSeen _ h := h

end Unaffected

/-! ## The keys -/

/-- The registers of the keys. -/
def keyRegisters : List IoRegister := [.joypad]

theorem applyKeys_of {P : SystemBus → Prop} (hP : Unaffected keyRegisters P) (bus : SystemBus)
    (event : InputEvent) (h : P bus) : P (bus.applyKeys event) := by
  rw [applyKeys, refreshJoypad]
  refine hP.set _ _ (by decide) _ (hP.setHeld _ _ _ ?_)
  split
  · exact hP.request bus .joypad h
  · exact h

theorem applyKeys_changesOnly (bus : SystemBus) (event : InputEvent) :
    bus.ChangesOnly (.interruptFlag :: keyRegisters) (bus.applyKeys event) :=
  applyKeys_of ((Unaffected.changesOnly bus List.mem_cons_self).mono (by decide)) bus event
    (.refl _ _)

end SystemBus

open SystemBus (Unaffected)

/-! ## The picture unit -/

/-- The registers of the picture unit. -/
def Ppu.registers : List IoRegister := [.lcdStatus, .lcdY]

namespace Scan

section Parts

variable {P : SystemBus → Prop}

theorem updateStatus_bus_of (hP : Unaffected [.lcdStatus] P) (s : Scan) (h : P s.bus) :
    P s.updateStatus.bus := by
  have hset : P (s.bus.set .lcdStatus s.status) := hP.set s.bus .lcdStatus (by decide) _ h
  rw [updateStatus]
  dsimp only
  split
  · exact hP.request _ .lcdStat hset
  · exact hset

theorem updateMode_bus_of (hP : Unaffected [] P) (s : Scan) (h : P s.bus) :
    P s.updateMode.state.bus := by
  rw [updateMode]
  dsimp only
  split
  · exact h
  · split
    · rw [(drawLine_frame _).1]
      exact h
    · exact hP.request s.bus .vBlank h
    · exact h
    · exact h

theorem advance_bus_of (hP : Unaffected [.lcdY] P) (s : Scan) (dots : Nat) (h : P s.bus) :
    P (s.advance dots).bus := by
  rw [advance]
  dsimp only
  split
  · exact h
  · exact hP.set s.bus .lcdY (by decide) _ h

/-- After the beam has moved on, a chunk has nothing to do with the line register. -/
theorem chunk_bus_of_advance (hP : Unaffected [.lcdStatus] P) (s : Scan) (dots : Nat)
    (h : P (s.advance dots).bus) : P (s.chunk dots).state.bus := by
  have hmoved := updateMode_bus_of (hP.mono (List.nil_subset _)) _ h
  rw [chunk]
  split
  · exact updateStatus_bus_of hP _ hmoved
  · exact hmoved

end Parts

variable {P : SystemBus → Prop} (hP : Unaffected Ppu.registers P)

include hP in
theorem chunk_bus_of (s : Scan) (dots : Nat) (h : P s.bus) : P (s.chunk dots).state.bus :=
  chunk_bus_of_advance (hP.mono (by decide)) s dots (advance_bus_of (hP.mono (by decide)) s dots h)

include hP in
/-- What the picture unit cannot change, a tick preserves. -/
theorem tick_bus_of (s : Scan) (dots : Nat) (h : P s.bus) : P (s.tick dots).state.bus := by
  induction s, dots using tick_induction with
  | zero s =>
    rw [tick_zero]
    exact h
  | chunk s dots hdots ih =>
    have hchunk := chunk_bus_of hP s (min dots (dotsToBoundary s.ppu.dot)) h
    rw [tick_eq_chunk hdots]
    generalize s.chunk (min dots (dotsToBoundary s.ppu.dot)) = done at hchunk ⊢
    rcases done with ⟨e | ⟨⟩, s'⟩
    · exact hchunk
    · exact ih s' hchunk

/-- The picture unit changes its registers and the requests, and nothing else. -/
theorem unaffected_changesOnly (bus : SystemBus) :
    Unaffected Ppu.registers (bus.ChangesOnly (.interruptFlag :: Ppu.registers)) :=
  (Unaffected.changesOnly bus List.mem_cons_self).mono (List.subset_cons_self _ _)

theorem advance_changesOnly (s : Scan) (dots : Nat) :
    s.bus.ChangesOnly (.interruptFlag :: Ppu.registers) (s.advance dots).bus :=
  advance_bus_of ((unaffected_changesOnly s.bus).mono (by decide)) s dots (.refl _ _)

theorem chunk_changesOnly (s : Scan) (dots : Nat) :
    s.bus.ChangesOnly (.interruptFlag :: Ppu.registers) (s.chunk dots).state.bus :=
  chunk_bus_of (unaffected_changesOnly s.bus) s dots (.refl _ _)

theorem tick_changesOnly (s : Scan) (dots : Nat) :
    s.bus.ChangesOnly (.interruptFlag :: Ppu.registers) (s.tick dots).state.bus :=
  tick_bus_of (unaffected_changesOnly s.bus) s dots (.refl _ _)

end Scan

/-! ## The timer -/

namespace Timer

/-- The registers of the timer that it counts in. -/
def registers : List IoRegister := [.divider, .timerCounter]

variable {P : SystemBus → Prop} (hP : Unaffected registers P)

include hP in
theorem countUp_of (bus : SystemBus) (h : P bus) : P (countUp bus) := by
  rw [countUp]
  split
  · exact hP.request _ .timer (hP.set bus .timerCounter (by decide) _ h)
  · exact hP.set bus .timerCounter (by decide) _ h

/-- What is preserved when a register goes up, the loop preserves. -/
theorem countOff_bus_of {goUp : SystemBus → SystemBus} (hup : ∀ bus, P bus → P (goUp bus))
    {period : Nat} (hpos : 0 < period) (cycles : Nat) (bus : SystemBus) (h : P bus) :
    P (countOff hpos goUp cycles bus).2 := by
  fun_induction countOff hpos goUp cycles bus with
  | case1 cycles bus hle ih => exact ih (hup bus h)
  | case2 cycles bus hlt => exact h

include hP in
theorem tickDivider_bus_of (timer : Timer) (bus : SystemBus) (cycles : Nat) (h : P bus) :
    P (timer.tickDivider bus cycles).2 :=
  countOff_bus_of (fun _ ↦ hP.set _ .divider (by decide) _) _ _ _ (hP.resetSeen bus h)

include hP in
/-- What the timer cannot change, a tick preserves. -/
theorem tick_bus_of (timer : Timer) (bus : SystemBus) (cycles : Nat) (h : P bus) :
    P (timer.tick bus cycles).2 := by
  have hdivider := tickDivider_bus_of hP timer bus cycles h
  rw [tick]
  dsimp only
  rw [tickCounter]
  dsimp only
  split
  · exact countOff_bus_of (countUp_of hP) _ _ _ hdivider
  · exact hdivider

end Timer

/-! ## A step of the machine -/

/-- All the registers that a device may change. -/
def SystemBus.deviceRegisters : List IoRegister :=
  .interruptFlag :: (keyRegisters ++ Ppu.registers ++ Timer.registers)

namespace Machine

variable {P : SystemBus → Prop} (hppu : Unaffected Ppu.registers P)
  (htimer : Unaffected Timer.registers P)

include hppu htimer in
theorem catchUp_bus_of (m : Machine) (cycles : Nat) (h : P m.bus) :
    P (m.catchUp cycles).state.bus := by
  have hscan := Scan.tick_bus_of hppu m.scan cycles h
  obtain ⟨cpu, bus, ppu, timer, header⟩ := m
  rw [scan] at hscan
  rw [catchUp]
  dsimp only at hscan ⊢
  generalize Scan.tick ⟨ppu, bus⟩ cycles = scanned at hscan ⊢
  rcases scanned with ⟨e | ⟨⟩, ppu, bus⟩
  · exact hscan
  · exact Timer.tick_bus_of htimer timer bus cycles hscan

/-- The devices change their registers and the requests, and nothing else. -/
theorem catchUp_changesOnly (m : Machine) (cycles : Nat) :
    m.bus.ChangesOnly SystemBus.deviceRegisters (m.catchUp cycles).state.bus :=
  have hdevice := Unaffected.changesOnly m.bus
    (List.mem_cons_self : .interruptFlag ∈ SystemBus.deviceRegisters)
  catchUp_bus_of (hdevice.mono (by decide)) (hdevice.mono (by decide)) m cycles (.refl _ _)

include hppu htimer in
/-- What holds after the processor has made its step, and what no device can change, holds after
the step of the machine, whether that succeeds or not. -/
theorem step_bus_of (m : Machine) (h : P m.core.step.state.bus) : P m.step.state.bus := by
  obtain ⟨cpu, bus, ppu, timer, header⟩ := m
  rw [core] at h
  rw [step]
  dsimp only at h ⊢
  generalize Core.step ⟨cpu, bus⟩ = stepped at h ⊢
  rcases stepped with ⟨e | cycles, cpu, bus⟩
  · exact h
  · have hcaught := catchUp_bus_of hppu htimer ⟨cpu, bus, ppu, timer, header⟩ (max cycles 1) h
    dsimp only
    generalize catchUp ⟨cpu, bus, ppu, timer, header⟩ (max cycles 1) = caught at hcaught ⊢
    rcases caught with ⟨e | ⟨⟩, m⟩
    · exact hcaught
    · exact hcaught

/-- After the processor has made its step, only registers of the devices change. -/
theorem step_changesOnly (m : Machine) :
    m.core.step.state.bus.ChangesOnly SystemBus.deviceRegisters m.step.state.bus :=
  have hdevice := Unaffected.changesOnly m.core.step.state.bus
    (List.mem_cons_self : .interruptFlag ∈ SystemBus.deviceRegisters)
  step_bus_of (hdevice.mono (by decide)) (hdevice.mono (by decide)) m (.refl _ _)

end Machine
end Handheld
