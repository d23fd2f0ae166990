import Handheld.Text.Hex

/-!
# What can go wrong in the machine

The causes for which the machine stops, and the text of each.  An operation that can fail answers
an `Outcome`: its answer or the error, together with the state it has reached.  The state matters in
both cases, because a failure leaves the work done before it in place.
-/

set_option autoImplicit false

namespace Handheld

/-- A reason for the machine to stop or not to be built. -/
inductive MachineError where
  /-- The byte at the program counter begins no instruction. -/
  | unknownOpcode (opcode : UInt8) (address : UInt16)
  /-- Sprites of double height were selected. -/
  | unsupportedSpriteSize
  /-- The cartridge is more than a plain ROM. -/
  | unsupportedCartridgeType (kind : UInt8)
  | romTooLarge (size : Nat)
  | romTooSmall (size : Nat)
  | invalidBootRomSize (size : Nat)
  deriving DecidableEq

/-- The text of an error. -/
def MachineError.message : MachineError → String
  | unknownOpcode opcode address =>
    s!"unknown opcode 0x{Hex.byte opcode} at 0x{Hex.word address}"
  | unsupportedSpriteSize => "8x16 sprites are not supported"
  | unsupportedCartridgeType kind => s!"unsupported cartridge type 0x{Hex.byte kind}"
  | romTooLarge size => s!"ROM is {size} bytes; ROM-only cartridges hold at most 32768"
  | romTooSmall size => s!"ROM is {size} bytes; too short for a cartridge header"
  | invalidBootRomSize size => s!"boot ROM must be exactly 256 bytes, got {size}"

/-- What an operation that can fail leaves behind. -/
structure Outcome (σ α : Type) where
  /-- The answer, or what went wrong. -/
  answer : Except MachineError α
  /-- The state reached, in either case. -/
  state : σ

end Handheld
