/-!
# Interrupt sources

Five devices can ask the processor for attention.  Each has a bit in the request byte IF and in the
enable byte IE, and an address at which its handler stands.  When several ask at once the one with
the lowest bit comes first.
-/

set_option autoImplicit false

namespace Handheld

/-- The sources of interrupts, most urgent first. -/
inductive Interrupt where
  | vBlank
  | lcdStat
  | timer
  | serial
  | joypad
  deriving DecidableEq

namespace Interrupt

/-- The number of a source: its bit in IF and IE, and its place among the vectors. -/
def index : Interrupt → Fin 5
  | vBlank => 0
  | lcdStat => 1
  | timer => 2
  | serial => 3
  | joypad => 4

/-- The bit of a source in IF and IE. -/
def mask : Interrupt → UInt8
  | vBlank => 0x01
  | lcdStat => 0x02
  | timer => 0x04
  | serial => 0x08
  | joypad => 0x10

/-- All sources in order of urgency. -/
def all : List Interrupt := [vBlank, lcdStat, timer, serial, joypad]

/-- The most urgent source whose bit is set. -/
def first? (requests : UInt8) : Option Interrupt := all.find? fun i ↦ requests &&& i.mask != 0

def name : Interrupt → String
  | vBlank => "VBlank"
  | lcdStat => "LcdStat"
  | timer => "Timer"
  | serial => "Serial"
  | joypad => "Joypad"

end Interrupt

/-- The handler address of each source. -/
abbrev InterruptVectors := Vector UInt16 5

/-- The handler addresses of the handheld. -/
def InterruptVectors.standard : InterruptVectors := #v[0x0040, 0x0048, 0x0050, 0x0058, 0x0060]

end Handheld
