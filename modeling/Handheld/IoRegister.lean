import Handheld.Word

/-!
# The I/O registers

The devices keep their state in bytes of the memory image.  Each such byte has a name here and an
address in the last page.
-/

set_option autoImplicit false

namespace Handheld

/-- A byte of the memory image that belongs to a device. -/
inductive IoRegister where
  /-- Key lines and the selection of key groups. -/
  | joypad
  | divider
  | timerCounter
  /-- What the timer counter starts again from. -/
  | timerModulo
  | timerControl
  | interruptFlag
  | lcdControl
  | lcdStatus
  | scrollY
  | scrollX
  /-- The line being drawn. -/
  | lcdY
  /-- The line to be told about. -/
  | lcdYCompare
  | spriteTransfer
  | backgroundPalette
  | spritePalette0
  | spritePalette1
  | windowY
  | windowX
  /-- Switches the boot ROM off. -/
  | bootOff
  | interruptEnable
  deriving DecidableEq

namespace IoRegister

/-- The short name that manuals use. -/
def symbol : IoRegister → String
  | joypad => "P1"
  | divider => "DIV"
  | timerCounter => "TIMA"
  | timerModulo => "TMA"
  | timerControl => "TAC"
  | interruptFlag => "IF"
  | lcdControl => "LCDC"
  | lcdStatus => "STAT"
  | scrollY => "SCY"
  | scrollX => "SCX"
  | lcdY => "LY"
  | lcdYCompare => "LYC"
  | spriteTransfer => "DMA"
  | backgroundPalette => "BGP"
  | spritePalette0 => "OBP0"
  | spritePalette1 => "OBP1"
  | windowY => "WY"
  | windowX => "WX"
  | bootOff => "BOOT"
  | interruptEnable => "IE"

/-- Where a register stands. -/
def address : IoRegister → UInt16
  | joypad => 0xFF00
  | divider => 0xFF04
  | timerCounter => 0xFF05
  | timerModulo => 0xFF06
  | timerControl => 0xFF07
  | interruptFlag => 0xFF0F
  | lcdControl => 0xFF40
  | lcdStatus => 0xFF41
  | scrollY => 0xFF42
  | scrollX => 0xFF43
  | lcdY => 0xFF44
  | lcdYCompare => 0xFF45
  | spriteTransfer => 0xFF46
  | backgroundPalette => 0xFF47
  | spritePalette0 => 0xFF48
  | spritePalette1 => 0xFF49
  | windowY => 0xFF4A
  | windowX => 0xFF4B
  | bootOff => 0xFF50
  | interruptEnable => 0xFFFF

/-- All registers in the order of their addresses. -/
def all : List IoRegister :=
  [joypad, divider, timerCounter, timerModulo, timerControl, interruptFlag, lcdControl, lcdStatus,
    scrollY, scrollX, lcdY, lcdYCompare, spriteTransfer, backgroundPalette, spritePalette0,
    spritePalette1, windowY, windowX, bootOff, interruptEnable]

/-- The register with a short name. -/
def ofSymbol? (s : String) : Option IoRegister := all.find? fun r ↦ r.symbol = s

/-- The value a register has when the machine is switched on, where it is not zero. -/
def initial : IoRegister → UInt8
  | joypad => 0xCF
  | divider => 0x18
  | interruptFlag => 0x01
  | lcdControl => 0x91
  | lcdStatus => 0x81
  | backgroundPalette => 0xFC
  | _ => 0x00

/-- **No two registers share an address.** -/
theorem address_inj {r s : IoRegister} : r.address = s.address ↔ r = s := by
  constructor
  · intro h
    cases r <;> cases s <;> first | rfl | (revert h; decide)
  · exact congrArg address

end IoRegister
end Handheld
