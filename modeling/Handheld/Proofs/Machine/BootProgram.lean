import Handheld.Proofs.Bus.Overlay
import Handheld.Proofs.Cpu.Dispatch
import Handheld.Proofs.Machine.PowerOn
import Handheld.Proofs.Timer.Counting
import Handheld.Proofs.Video.TallSprites

/-!
# Programs in the boot ROM

A machine that is switched on with a boot ROM runs what is in there, from the first byte on.  While
no interrupt is enabled nothing can come between, so its steps are those of the program, one
instruction each (`Machine.InBootProgram.step`): the devices move on in the meantime, but they
change nothing that the program depends on.  What `Machine.InBootProgram` keeps account of is what
programs here are about: A, and the registers of the timer.

The shortest program of any interest stores a byte to a register (`Machine.storeProgram_steps`).
-/

set_option autoImplicit false

namespace Handheld
namespace Machine

variable {m : Machine} {bus : SystemBus}

/-- A machine in its boot program, with no interrupt enabled: where it is, what A holds, and what
there is about the timer. -/
structure InBootProgram (boot : BootRom) (m : Machine) (pc : UInt16) (a control count : UInt8)
    (left : Nat) : Prop where
  bootRom_eq : m.bus.bootRom = some boot
  runState_eq : m.cpu.runState = .running
  pc_eq : m.cpu.regs.pc = pc
  a_eq : m.cpu.regs.a = a
  enable_eq : m.bus.get .interruptEnable = 0
  drawable : ¬m.bus.lcdControl.TallSprites
  control_eq : m.bus.get .timerControl = control
  modulo_eq : m.bus.get .timerModulo = 0
  count_eq : m.bus.get .timerCounter = count
  left_eq : m.timer.counterCycles = left

namespace InBootProgram

variable {boot : BootRom} {pc : UInt16} {a control count : UInt8} {left : Nat}

/-- A boot program starts with A and the counter at zero, and the counter at rest. -/
theorem of_assemble (h : assemble (some boot.bytes) none = .ok m) :
    InBootProgram boot m 0 0 0 0 0 := by
  have hm := SwitchedOn.of_assemble h
  have hcpu : m.cpu = .startingAt 0 := hm.cpu_eq
  exact
    { bootRom_eq :=
        (Except.ok.inj ((SystemBus.bootRomOf_bytes boot).symm.trans hm.bus.bootRom_eq)).symm
      runState_eq := by rw [hcpu]; rfl
      pc_eq := by rw [hcpu]; rfl
      a_eq := by rw [hcpu]; rfl
      enable_eq := hm.bus.get_eq _ (by decide)
      drawable := by
        rw [SystemBus.lcdControl, hm.bus.get_eq _ (by decide)]
        decide
      control_eq := hm.bus.get_eq _ (by decide)
      modulo_eq := hm.bus.get_eq _ (by decide)
      count_eq := hm.bus.get_eq _ (by decide)
      left_eq := by rw [hm.timer_eq] }

/-- The instruction at the program counter is the one in the boot ROM. -/
theorem fetch_eq (h : InBootProgram boot m pc a control count left) (hpc : pc < 0xF0)
    {i : Instruction}
    (hi : Instruction.decode (boot.read pc.toUInt8) (boot.read (pc + 1).toUInt8)
      (boot.read (pc + 2).toUInt8) = some i) :
    Instruction.fetch? m.bus m.cpu.regs.pc = some i := by
  have hread {b : UInt16} (hb : b < 0x100) : m.bus.read b = boot.read b.toUInt8 := by
    rw [m.bus.read_of_lt (by grind), h.bootRom_eq]
    exact if_pos hb
  rw [← hread (by grind), ← hread (by grind), ← hread (by grind)] at hi
  rw [Instruction.fetch?, h.pc_eq]
  exact hi

/-- It is what the processor does next, for no interrupt is enabled. -/
theorem nextAction_eq (h : InBootProgram boot m pc a control count left) {i : Instruction}
    (hi : Instruction.fetch? m.bus m.cpu.regs.pc = some i) : m.core.nextAction = .execute i := by
  have hquiet : m.core.pending = 0 := by
    rw [Core.pending_eq]
    show m.bus.get .interruptEnable &&& _ &&& _ = 0
    rw [h.enable_eq, UInt8.zero_and, UInt8.zero_and]
  exact Core.nextAction_of_fetch hquiet h.runState_eq hi

/-- Only a few registers matter to the program, those of the timer apart. -/
theorem onBus (h : InBootProgram boot m pc a control count left) {registers : List IoRegister}
    (hbus : m.bus.ChangesOnly registers bus)
    (hr : ∀ r ∈ [.interruptEnable, .lcdControl, .timerModulo], r ∉ registers) (ppu : Ppu)
    (timer : Timer) :
    InBootProgram boot { m with bus, ppu, timer } pc a (bus.get .timerControl)
      (bus.get .timerCounter) timer.counterCycles :=
  { bootRom_eq := hbus.bootRom_eq.trans h.bootRom_eq
    runState_eq := h.runState_eq
    pc_eq := h.pc_eq
    a_eq := h.a_eq
    enable_eq := (hbus.get_eq (hr _ (by decide))).trans h.enable_eq
    drawable := by
      show ¬bus.lcdControl.TallSprites
      rw [hbus.lcdControl_eq (hr _ (by decide))]
      exact h.drawable
    control_eq := rfl
    modulo_eq := (hbus.get_eq (hr _ (by decide))).trans h.modulo_eq
    count_eq := rfl
    left_eq := rfl }

/-- The devices leave the program alone; the counter goes up as the timer says. -/
theorem catchUp (h : InBootProgram boot m pc a control count left) (c : Nat) :
    ∃ m' bus, m.catchUp c = ⟨.ok (), m'⟩ ∧ (m.scan.tick c).state.bus = bus ∧
      InBootProgram boot { m with bus } pc a control count left ∧
      InBootProgram boot m' pc a control
        ((Timer.nextCount 0)^[Timer.increments ⟨0, left⟩ control c] count)
        (if Timer.isEnabled control then (left + c) % Timer.counterPeriod control else left) := by
  have hscan := Scan.tick_changesOnly m.scan c
  have hok := Scan.tick_eq_ok (s := m.scan) h.drawable c
  generalize (m.scan.tick c).state = s at hscan hok
  have hfound : InBootProgram boot { m with bus := s.bus } pc a control count left := by
    have hon := h.onBus hscan (by decide) m.ppu m.timer
    rw [hscan.get_eq (by decide), hscan.get_eq (by decide), h.left_eq] at hon
    rwa [show m.scan.bus.get .timerControl = control from h.control_eq,
      show m.scan.bus.get .timerCounter = count from h.count_eq] at hon
  have htimer := Timer.tick_changesOnly m.timer s.bus c
  refine ⟨_, s.bus, catchUp_eq_ok.2 ⟨s, hok, rfl⟩, rfl, hfound, ?_⟩
  have hnext := hfound.onBus htimer (by decide) s.ppu (m.timer.tick s.bus c).1
  rw [htimer.get_eq (by decide), Timer.get_timerCounter_tick, Timer.counterCycles_tick,
    Timer.increments] at hnext
  rwa [hfound.control_eq, hfound.modulo_eq, hfound.count_eq, hfound.left_eq] at hnext

/-- A step of the program, once it is known what its instruction does: what the timer finds when it
is its turn, and how things are after it. -/
theorem step (h : InBootProgram boot m pc a control count left) {i : Instruction}
    (hi : Instruction.fetch? m.bus m.cpu.regs.pc = some i) {c : Nat}
    (hc : i.cycles (i.isTaken m.cpu.regs.flags) = c) {pc' : UInt16} {a' control' count' : UInt8}
    (hrun : InBootProgram boot { m with cpu := (m.core.run i).cpu, bus := (m.core.run i).bus }
      pc' a' control' count' left) :
    ∃ m' bus, m.step = ⟨.ok c, m'⟩ ∧
      (Scan.tick ⟨m.ppu, m.core.step.state.bus⟩ c).state.bus = bus ∧
      bus.get .timerControl = control' ∧ bus.get .timerModulo = 0 ∧
      bus.get .timerCounter = count' ∧
      InBootProgram boot m' pc' a' control'
        ((Timer.nextCount 0)^[Timer.increments ⟨0, left⟩ control' c] count')
        (if Timer.isEnabled control' then (left + c) % Timer.counterPeriod control'
          else left) := by
  subst hc
  have hcore : m.core.step = ⟨.ok (i.cycles (i.isTaken m.cpu.regs.flags)), m.core.run i⟩ :=
    Core.step_of_execute (h.nextAction_eq hi)
  obtain ⟨m', bus, hcatch, hbus, hfound, hnext⟩ :=
    hrun.catchUp (i.cycles (i.isTaken m.cpu.regs.flags))
  have hstep : m.step = ⟨.ok (i.cycles (i.isTaken m.cpu.regs.flags)), m'⟩ :=
    step_eq_ok.2 ⟨by rw [hcore], by rw [hcore]; exact hcatch⟩
  refine ⟨m', bus, hstep, ?_, hfound.control_eq, hfound.modulo_eq, hfound.count_eq, hnext⟩
  rw [hcore]
  exact hbus

/-- Loading a byte into A. -/
theorem run_load (h : InBootProgram boot m pc a control count left) (v : UInt8) :
    InBootProgram boot
      { m with cpu := (m.core.run (.loadByte .a v)).cpu, bus := (m.core.run (.loadByte .a v)).bus }
      (pc + 2) v control count left :=
  { h with
    runState_eq := Core.settleEnable_runState _ _
    pc_eq := by
      refine (congrArg Registers.pc (Core.settleEnable_regs _ _)).trans ?_
      exact congrArg (· + 2) h.pc_eq
    a_eq := congrArg Registers.a (Core.settleEnable_regs _ _) }

/-- Storing A to a register that has nothing to do with how the program goes on. -/
theorem run_storeHigh (h : InBootProgram boot m pc a control count left) (offset : UInt8)
    {r : IoRegister} (haddress : Instruction.highAddress offset = r.address)
    (hplain : r ∉ [.spriteTransfer, .bootOff])
    (hr : r ∉ [.interruptEnable, .lcdControl, .timerModulo]) :
    InBootProgram boot
      { m with
        cpu := (m.core.run (.storeHigh offset)).cpu
        bus := (m.core.run (.storeHigh offset)).bus }
      (pc + 2) a ((m.bus.write r.address a).get .timerControl)
      ((m.bus.write r.address a).get .timerCounter) left := by
  have hbus : (m.core.run (.storeHigh offset)).bus = m.bus.write r.address a := by
    rw [← h.a_eq, ← haddress]
    rfl
  have hon := h.onBus (m.bus.write_changesOnly a hplain)
    (fun q hq hmem ↦ hr (List.mem_singleton.1 hmem ▸ hq)) m.ppu m.timer
  rw [h.left_eq] at hon
  rw [hbus]
  exact
    { hon with
      runState_eq := Core.settleEnable_runState _ _
      pc_eq := by
        refine (congrArg Registers.pc (Core.settleEnable_regs _ _)).trans ?_
        exact congrArg (· + 2) h.pc_eq
      a_eq := (congrArg Registers.a (Core.settleEnable_regs _ _)).trans h.a_eq }

/-- Storing A to the control register of the timer. -/
theorem run_store (h : InBootProgram boot m pc a control count left) :
    InBootProgram boot
      { m with
        cpu := (m.core.run (.storeHigh 0x07)).cpu
        bus := (m.core.run (.storeHigh 0x07)).bus }
      (pc + 2) a a count left := by
  have hstore := h.run_storeHigh 0x07 (r := .timerControl) rfl (by decide) (by decide)
  rwa [SystemBus.write_plain _ _ (by decide), SystemBus.get_set_self,
    SystemBus.get_set_of_ne _ _ (by decide), h.count_eq] at hstore

end InBootProgram

/-! ## A program that stores a byte -/

/-- A boot program that stores a byte to a register in the last page, and does nothing else of
interest. -/
def storeProgram (v offset : UInt8) : BootRom :=
  .ofFn fun i ↦ ([0x3E, v, 0xE0, offset] : List UInt8).getD i.toNat 0

theorem storeProgram_read (v offset i : UInt8) :
    (storeProgram v offset).read i = ([0x3E, v, 0xE0, offset] : List UInt8).getD i.toNat 0 :=
  BootRom.read_ofFn _ i

/-- It takes two steps, and the store is all that the processor does to the bus. -/
theorem storeProgram_steps (v offset : UInt8) {r : IoRegister}
    (haddress : Instruction.highAddress offset = r.address)
    (hplain : r ∉ [.spriteTransfer, .bootOff])
    (hr : r ∉ [.interruptEnable, .lcdControl, .timerModulo]) :
    ∃ m m₁ m₂, assemble (some (storeProgram v offset).bytes) none = .ok m ∧
      m.step = ⟨.ok 8, m₁⟩ ∧ m.core.stores = [] ∧
      m₁.step = ⟨.ok 12, m₂⟩ ∧ m₁.core.stores = [(r.address, v)] := by
  obtain ⟨m, hm⟩ := exists_assemble_boot (storeProgram v offset)
  have h₀ := InBootProgram.of_assemble hm
  have hload : Instruction.fetch? m.bus m.cpu.regs.pc = some (.loadByte .a v) :=
    h₀.fetch_eq (by decide) (by
      simp only [storeProgram_read]
      show Instruction.decode 0x3E v 0xE0 = _
      rfl)
  obtain ⟨m₁, -, hs₁, -, -, -, -, h₁⟩ := h₀.step hload (c := 8) rfl (h₀.run_load v)
  have hstore : Instruction.fetch? m₁.bus m₁.cpu.regs.pc = some (.storeHigh offset) :=
    h₁.fetch_eq (by decide) (by
      simp only [storeProgram_read]
      show Instruction.decode 0xE0 offset 0 = _
      rfl)
  obtain ⟨m₂, -, hs₂, -⟩ :=
    h₁.step hstore (c := 12) rfl (h₁.run_storeHigh offset haddress hplain hr)
  refine ⟨m, m₁, m₂, hm, hs₁, Core.stores_execute (h₀.nextAction_eq hload), hs₂, ?_⟩
  rw [Core.stores_execute (h₁.nextAction_eq hstore), ← haddress, ← h₁.a_eq]
  rfl

end Machine
end Handheld
