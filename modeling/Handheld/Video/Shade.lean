/-!
# Colours and shades

The screen knows four shades of grey.  A pixel starts out as a colour index from 0 to 3, which a
palette register turns into a shade: two bits of the register for each index.  A shade is shown as a
`Color`.
-/

set_option autoImplicit false

namespace Handheld

/-- A colour with its opacity. -/
structure Color where
  r : UInt8
  g : UInt8
  b : UInt8
  a : UInt8 := 0xFF
  deriving DecidableEq

namespace Color

/-- The three colour components. -/
def rgb (c : Color) : List UInt8 := [c.r, c.g, c.b]

/-- The components with the opacity. -/
def rgba (c : Color) : List UInt8 := [c.r, c.g, c.b, c.a]

/-- The colour as one number, red in the lowest byte and opacity in the highest. -/
def toUInt32 (c : Color) : UInt32 :=
  c.r.toUInt32 ||| c.g.toUInt32 <<< 8 ||| c.b.toUInt32 <<< 16 ||| c.a.toUInt32 <<< 24

/-- An opaque grey. -/
def grey (level : UInt8) : Color := { r := level, g := level, b := level }

end Color

/-- What a tile says about a pixel. -/
abbrev ColorIndex := Fin 4

/-- What the screen shows. -/
inductive Shade where
  | white
  | lightGrey
  | darkGrey
  | black
  deriving DecidableEq, Inhabited

namespace Shade

/-- The shades from light to dark, as numbers. -/
def number : Shade → UInt8
  | white => 0
  | lightGrey => 1
  | darkGrey => 2
  | black => 3

def name : Shade → String
  | white => "White"
  | lightGrey => "LightGrey"
  | darkGrey => "DarkGrey"
  | black => "Black"

def color : Shade → Color
  | white => .grey 0xFF
  | lightGrey => .grey 0xAA
  | darkGrey => .grey 0x55
  | black => .grey 0x00

/-- The shade that a palette gives to a colour index. -/
def ofPalette (palette : UInt8) (index : ColorIndex) : Shade :=
  match (palette.toNat >>> (2 * index.val)) % 4 with
  | 0 => white
  | 1 => lightGrey
  | 2 => darkGrey
  | _ => black

end Shade
end Handheld
