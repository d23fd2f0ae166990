import Handheld.Error
import Handheld.SystemBus
import Handheld.Text.Blank
import Handheld.Text.Utf8

/-!
# The cartridge header

A cartridge describes itself in the bytes from `0x134` to `0x14F`.  Only plain ROMs are accepted.
The checksum of the header is computed and reported, but a wrong one is no error.
-/

set_option autoImplicit false

namespace Handheld

/-- What a cartridge says about itself. -/
structure CartridgeHeader where
  title : String
  licensee : UInt8 × UInt8
  sgbFlag : UInt8
  cartridgeType : UInt8
  romSize : UInt8
  ramSize : UInt8
  region : UInt8
  oldLicensee : UInt8
  version : UInt8
  /-- The checksum of the header as it is stored. -/
  headerChecksum : UInt8
  globalChecksum : UInt16
  /-- The checksum of the header as it should be. -/
  computedChecksum : UInt8
  deriving DecidableEq

namespace CartridgeHeader

/-- Where the header ends. -/
def headerEnd : Nat := 0x150

/-- The bytes from `first` up to `last`. -/
def bytesIn (rom : ByteArray) (first last : Nat) : List UInt8 :=
  (List.range (last + 1 - first)).map fun k ↦ rom[first + k]?.getD 0

/-- The checksum over some bytes: each is taken away, and one more. -/
def checksum (bytes : List UInt8) : UInt8 := bytes.foldl (fun sum b ↦ sum - b - 1) 0

/-- The title: the bytes up to the first zero, as text without blanks at its end. -/
def titleOf (bytes : List UInt8) : String :=
  String.ofList (trimBlanksRight (Utf8.decodeLossy (bytes.takeWhile (· ≠ 0))))

/-- Reads the header of a cartridge. -/
def parse (rom : ByteArray) : Except MachineError CartridgeHeader :=
  let byte (a : Nat) : UInt8 := rom[a]?.getD 0
  if rom.size < headerEnd then .error (.romTooSmall rom.size)
  else if rom.size > Handheld.romSize then .error (.romTooLarge rom.size)
  else if byte 0x147 ≠ 0 then .error (.unsupportedCartridgeType (byte 0x147))
  else
    .ok
      { title := titleOf (bytesIn rom 0x134 0x143)
        licensee := (byte 0x144, byte 0x145)
        sgbFlag := byte 0x146
        cartridgeType := byte 0x147
        romSize := byte 0x148
        ramSize := byte 0x149
        region := byte 0x14A
        oldLicensee := byte 0x14B
        version := byte 0x14C
        headerChecksum := byte 0x14D
        globalChecksum := Word.ofBytes (byte 0x14E) (byte 0x14F)
        computedChecksum := checksum (bytesIn rom 0x134 0x14C) }

/-- Whether the stored checksum is right. -/
def checksumValid (h : CartridgeHeader) : Bool := h.headerChecksum == h.computedChecksum

/-- The header in one line. -/
def describe (h : CartridgeHeader) : String :=
  let code (b : UInt8) : String := String.singleton (Char.ofNat b.toNat)
  "\"" ++ h.title ++ "\"" ++
    s!" type=0x{Hex.byte h.cartridgeType} rom=0x{Hex.byte h.romSize}" ++
    s!" ram=0x{Hex.byte h.ramSize} region=0x{Hex.byte h.region}" ++
    " licensee=" ++ code h.licensee.1 ++ code h.licensee.2 ++
    s!" old_licensee=0x{Hex.byte h.oldLicensee} v{h.version}" ++
    s!" header_checksum=0x{Hex.byte h.headerChecksum}" ++
    (if h.checksumValid then "" else " (mismatch)") ++
    s!" global_checksum=0x{Hex.word h.globalChecksum}"

end CartridgeHeader
end Handheld
