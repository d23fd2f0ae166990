import Handheld.Journal
import Handheld.Machine

/-!
# What the machine reports

For each operation of the machine, the events it reports, worked out from the state it starts in.
Where the state after a part of the operation is needed it is computed here a second time: only who
keeps a journal pays for it, and the machine stays free of it.
-/

set_option autoImplicit false

namespace Handheld

/-- Reported when the boot ROM has gone from one state to the next. -/
def SystemBus.unmapEvents (before after : SystemBus) : List Event :=
  if before.bootRomMapped && !after.bootRomMapped then [.bootRomUnmapped] else []

namespace Core

variable {β : Type} [Bus β]

/-- What the next step of the processor reports, its bus apart. -/
@[specialize] def events (s : Core β) : List Event :=
  let regs := s.regs
  match s.nextAction with
  | .dispatch source =>
    [.dispatched source (s.cpu.vectors.get source.index) regs.pc (regs.sp - 2)
      (s.read interruptFlagAddress &&& 0x1F) (s.read interruptEnableAddress)]
  | .idle => []
  | .leaveStop => [.leavingStop (s.read joypadAddress)]
  | .execute i =>
    [.fetched regs.pc i { regs with pc := regs.pc + UInt16.ofNat i.opcodeLength }]
  | .reject opcode => [.unknownOpcode opcode (s.read interruptFlagAddress) regs]

/-- What the next step reports on the system bus.  An instruction is reported before what it does to
the bus, a dispatch after it. -/
def systemEvents (s : Core SystemBus) : List Event :=
  let unmapped := s.bus.unmapEvents s.step.state.bus
  match s.nextAction with
  | .dispatch _ => unmapped ++ s.events
  | _ => s.events ++ unmapped

end Core

namespace Scan

/-- What one chunk reports, from its start, its length and its end. -/
def chunkEvents (s : Scan) (dots : Nat) (done : Outcome Scan Unit) : List Event :=
  let after := done.state
  let frame :=
    if after.ppu.frameCount = s.ppu.frameCount then []
    else [.frameBegun after.ppu.frameCount (s.bus.get .interruptFlag ||| Interrupt.vBlank.mask)]
  match done.answer with
  | .error _ => [.tallSprites (s.bus.get .lcdControl) (s.advance dots).ppu.line]
  | .ok () =>
    if after.ppu.statLine && !s.ppu.statLine then
      frame ++ [.statInterrupt (after.bus.get .lcdStatus) after.ppu.line after.ppu.mode]
    else frame

/-- What a tick reports. -/
def events (s : Scan) (dots : Nat) : List Event :=
  if _ : dots = 0 then []
  else
    let now := min dots (dotsToBoundary s.ppu.dot)
    let done := s.chunk now
    s.chunkEvents now done ++
      match done.answer with
      | .ok () => done.state.events (dots - now)
      | .error _ => []
termination_by dots
decreasing_by
  have := dotsToBoundary_pos s.ppu.dot
  omega

end Scan

namespace Machine

/-- What building a machine reports. -/
def assembleEvents (rom : Option ByteArray) : List Event :=
  match headerOf rom with
  | .ok (some header) => [.cartridge header]
  | .ok none => []
  | .error (.unsupportedCartridgeType kind) => [.unsupportedCartridge kind]
  | .error _ => []

/-- What the next step reports. -/
def events (m : Machine) : List Event :=
  let done := m.core.step
  m.core.systemEvents ++
    match done.answer with
    | .ok cycles => Scan.events ⟨m.ppu, done.state.bus⟩ (max cycles 1)
    | .error _ => []

/-- The journal with what the next step reports. -/
@[inline] def noteStep (m : Machine) (j : Journal) : Journal :=
  if j.isOn then j.noteAll m.events else j

/-- The journal with what a run to a frame reports. -/
def noteRun (target limit : Nat) (m : Machine) (elapsed : Nat) (j : Journal) : Journal :=
  if m.ppu.frameCount < target ∧ elapsed < limit then
    let j := m.noteStep j
    match _h : m.step with
    | ⟨.error _, _⟩ => j
    | ⟨.ok cycles, m⟩ => noteRun target limit m (elapsed + cycles) j
  else j
termination_by limit - elapsed
decreasing_by
  have := step_pos (congrArg Outcome.answer _h)
  omega

/-- The journal with what running to the next frame reports. -/
def noteFrame (m : Machine) (j : Journal) : Journal :=
  if j.isOn then noteRun (m.ppu.frameCount + 1) (2 * frameDots) m 0 j else j

end Machine
end Handheld
