import Handheld.Cartridge
import Handheld.Cpu.Listing
import Handheld.Text.FixedPoint
import Handheld.Video.Mode

/-!
# The journal

What the program reports while it works, apart from its results.  An `Event` is a fact; its level
says how much it matters and its message how it is worded.  A `Journal` keeps the events up to a
level of detail and drops the rest.

Nothing in the machine depends on the journal.  What a step reports is worked out from the state
that it starts in (`Handheld.Report`), so the machine itself does not carry a journal about.
-/

set_option autoImplicit false

namespace Handheld

/-- How much an event matters, the gravest first. -/
inductive Level where
  | error
  | warn
  | info
  | debug
  | trace
  deriving DecidableEq

namespace Level

/-- The detail at which a level is reported: the gravest at the least. -/
def detail : Level → Nat
  | error => 1
  | warn => 2
  | info => 3
  | debug => 4
  | trace => 5

def name : Level → String
  | error => "ERROR"
  | warn => "WARN"
  | info => "INFO"
  | debug => "DEBUG"
  | trace => "TRACE"

/-- All levels. -/
def all : List Level := [error, warn, info, debug, trace]

/-- The level with a name, in either case. -/
def ofName? (s : String) : Option Level := all.find? fun l ↦ l.name = s.toUpper

end Level

/-- Something that happened and is worth reporting. -/
inductive Event where
  | unsupportedCartridge (kind : UInt8)
  | tallSprites (control : UInt8) (line : Nat)
  | unknownOpcode (opcode : UInt8) (requests : UInt8) (regs : Registers)
  | sliceCapped (dt limit budget : Nat)
  | slow (speed : Float32)
  | breakpointTableFull (address : UInt16)
  | cartridge (header : CartridgeHeader)
  | bootRomUnmapped
  | breakpointHit (address : UInt16)
  | ranFrames (count : Nat)
  /-- An interrupt was dispatched; the stack pointer is the one after the return address has been
  pushed. -/
  | dispatched (source : Interrupt) (vector pc sp : UInt16) (requests enabled : UInt8)
  | leavingStop (joypad : UInt8)
  | frameBegun (count : Nat) (requests : UInt8)
  | statInterrupt (status : UInt8) (line : Nat) (mode : Mode)
  /-- An instruction was fetched; the registers are those after its opcode has been read. -/
  | fetched (address : UInt16) (instruction : Instruction) (regs : Registers)

namespace Event

/-- The level of an event. -/
def level : Event → Level
  | unsupportedCartridge _ | tallSprites .. | unknownOpcode .. => .error
  | sliceCapped .. | slow _ | breakpointTableFull _ => .warn
  | cartridge _ | bootRomUnmapped | breakpointHit _ | ranFrames _ => .info
  | dispatched .. | leavingStop _ | frameBegun .. | statInterrupt .. => .debug
  | fetched .. => .trace

/-- The wording of an event. -/
def message : Event → String
  | unsupportedCartridge kind => s!"unsupported cartridge type 0x{Hex.byte kind}"
  | tallSprites control line =>
    s!"8x16 sprites selected (LCDC=0x{Hex.byte control}) on line {line}"
  | unknownOpcode opcode requests regs =>
    s!"unknown opcode 0x{Hex.byte opcode} at 0x{Hex.word regs.pc} IF=0x{Hex.byte requests} " ++
      regs.render
  | sliceCapped dt limit budget => s!"capping slice of {dt} ms to {limit} ms ({budget} cycles)"
  | slow speed => "emulation speed " ++ FixedPoint.ofFloat32 speed
  | breakpointTableFull address => s!"breakpoint table full, ignoring 0x{Hex.word address}"
  | cartridge header => "cartridge: " ++ header.describe
  | bootRomUnmapped => "boot ROM unmapped"
  | breakpointHit address => s!"breakpoint hit at 0x{Hex.word address}"
  | ranFrames count => s!"ran {count} frames"
  | dispatched source vector pc sp requests enabled =>
    s!"interrupt {source.name}: vector=0x{Hex.word vector} pc=0x{Hex.word pc} " ++
      s!"sp=0x{Hex.word sp} IF=0x{Hex.byte requests} IE=0x{Hex.byte enabled}"
  | leavingStop joypad => s!"leaving STOP, P1=0x{Hex.byte joypad}"
  | frameBegun count requests => s!"VBlank edge: frame={count} IF=0x{Hex.byte requests}"
  | statInterrupt status line mode =>
    s!"STAT interrupt: STAT=0x{Hex.byte status} LY={line} mode={mode.name}"
  | fetched address instruction regs =>
    Hex.word address ++ ": " ++ padRight 14 (instruction.render .template) ++ " " ++ regs.render

/-- An event as a line: its level and its message. -/
def line (e : Event) : String := e.level.name ++ " " ++ e.message

end Event

/-- The events noted so far, up to a level of detail. -/
structure Journal where
  /-- The most detailed level that is kept; none keeps nothing. -/
  threshold : Option Level := none
  /-- The events kept, oldest first. -/
  entries : Array Event := #[]

namespace Journal

/-- Whether anything is kept at all. -/
@[inline] def isOn (j : Journal) : Bool := j.threshold.isSome

/-- Whether events of a level are kept. -/
def keeps (j : Journal) (l : Level) : Bool :=
  match j.threshold with
  | some most => l.detail ≤ most.detail
  | none => false

/-- The journal with an event noted, if events of its level are kept. -/
def note (j : Journal) (e : Event) : Journal :=
  if j.keeps e.level then { j with entries := j.entries.push e } else j

/-- The journal with events noted in order. -/
def noteAll (j : Journal) (es : List Event) : Journal := es.foldl note j

/-- The lines of the journal. -/
def lines (j : Journal) : List String := j.entries.toList.map Event.line

/-- The journal with nothing in it, at the same level of detail. -/
def clear (j : Journal) : Journal := { j with entries := #[] }

end Journal
end Handheld
