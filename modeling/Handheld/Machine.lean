import Handheld.Cartridge
import Handheld.Cpu.Step
import Handheld.Timer
import Handheld.Video.Ppu

/-!
# The machine

Processor, bus, picture unit and timer in lockstep: each step of the processor is followed by a tick
of the picture unit and one of the timer, of as many cycles as the step took.  A failure of the
processor or of the picture unit ends the step where it is.
-/

set_option autoImplicit false

namespace Handheld

/-- The whole machine. -/
structure Machine where
  cpu : Cpu
  bus : SystemBus
  ppu : Ppu := {}
  timer : Timer := {}
  /-- What the cartridge says about itself, if there is one. -/
  header : Option CartridgeHeader := none

namespace Machine

/-- The header of a cartridge, if there is a cartridge. -/
def headerOf : Option ByteArray → Except MachineError (Option CartridgeHeader)
  | none => .ok none
  | some rom => (CartridgeHeader.parse rom).map some

/-- A machine from a boot ROM and a cartridge.  With a boot ROM it starts there, without one it
starts in the state in which the boot program would have left it. -/
def assemble (boot rom : Option ByteArray) : Except MachineError Machine := do
  let header ← headerOf rom
  let bus ← SystemBus.new boot rom
  let cpu := if boot.isSome then Cpu.startingAt 0 else Cpu.postBoot
  return { cpu, bus, header }

/-- The processor on its bus. -/
@[inline] def core (m : Machine) : Core SystemBus := ⟨m.cpu, m.bus⟩

/-- The picture unit on the bus. -/
@[inline] def scan (m : Machine) : Scan := ⟨m.ppu, m.bus⟩

/-- Lets the devices catch up with the processor. -/
def catchUp (m : Machine) (cycles : Nat) : Outcome Machine Unit :=
  match m with
  | ⟨cpu, bus, ppu, timer, header⟩ =>
    match Scan.tick ⟨ppu, bus⟩ cycles with
    | ⟨.error e, ⟨ppu, bus⟩⟩ => { answer := .error e, state := ⟨cpu, bus, ppu, timer, header⟩ }
    | ⟨.ok (), ⟨ppu, bus⟩⟩ =>
      match timer.tick bus cycles with
      | (timer, bus) => { answer := .ok (), state := ⟨cpu, bus, ppu, timer, header⟩ }

/-- One step: the clock cycles it took, at least one, and the machine after it. -/
def step (m : Machine) : Outcome Machine Nat :=
  match m with
  | ⟨cpu, bus, ppu, timer, header⟩ =>
    match Core.step ⟨cpu, bus⟩ with
    | ⟨.error e, ⟨cpu, bus⟩⟩ => { answer := .error e, state := ⟨cpu, bus, ppu, timer, header⟩ }
    | ⟨.ok cycles, ⟨cpu, bus⟩⟩ =>
      let cycles := max cycles 1
      match catchUp ⟨cpu, bus, ppu, timer, header⟩ cycles with
      | ⟨.error e, m⟩ => { answer := .error e, state := m }
      | ⟨.ok (), m⟩ => { answer := .ok cycles, state := m }

/-- A step that succeeds takes time. -/
theorem step_pos {m : Machine} {cycles : Nat} (h : m.step.answer = .ok cycles) : 0 < cycles := by
  unfold step at h
  split at h
  split at h
  · cases h
  · simp only at h
    split at h
    · cases h
    · cases h
      omega

/-- Steps until the picture unit has begun `target` frames or `limit` cycles have passed; `elapsed`
have so far. -/
def runToFrame (target limit : Nat) (m : Machine) (elapsed : Nat) : Outcome Machine Nat :=
  if m.ppu.frameCount < target ∧ elapsed < limit then
    match _h : m.step with
    | ⟨.error e, m⟩ => { answer := .error e, state := m }
    | ⟨.ok cycles, m⟩ => runToFrame target limit m (elapsed + cycles)
  else { answer := .ok elapsed, state := m }
termination_by limit - elapsed
decreasing_by
  have := step_pos (congrArg Outcome.answer _h)
  omega

/-- Steps to the next vertical blank, at most two frames away, and answers the cycles that took. -/
def stepFrame (m : Machine) : Outcome Machine Nat :=
  runToFrame (m.ppu.frameCount + 1) (2 * frameDots) m 0

/-- Takes a key event. -/
def applyKeys (m : Machine) (event : InputEvent) : Machine :=
  { m with bus := m.bus.applyKeys event }

end Machine
end Handheld
