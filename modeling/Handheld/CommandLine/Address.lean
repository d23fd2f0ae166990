import Handheld.Text.Numeral

/-!
# Addresses on the command line

An address is a hexadecimal numeral below `0x10000`, with at most one of the marks `0x`, `0X` and
`$` before it.
-/

set_option autoImplicit false

namespace Handheld
namespace Address

/-- The text without the mark before it. -/
def stripMark : List Char → List Char
  | '0' :: 'x' :: cs => cs
  | '0' :: 'X' :: cs => cs
  | '$' :: cs => cs
  | cs => cs

/-- Reads an address. -/
def parse (text : String) : Except Numeral.Fault UInt16 :=
  (Numeral.parse 16 0xFFFF (stripMark text.toList)).map UInt16.ofNat

/-- The text of the complaint about an address. -/
def complaint (text : String) (fault : Numeral.Fault) : String :=
  "invalid address '" ++ text ++ "': " ++ fault.reason

end Address
end Handheld
