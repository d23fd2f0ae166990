import Handheld.SystemBus
import Handheld.Video.Screen

/-!
# Drawing a line

A line is painted in layers.  The background and the window are 256 by 256 pixel maps of tiles; the
background is scrolled and wraps around, the window lies over it from a corner of the screen on.
They give each pixel of the line a colour index.  Sprites are painted over the shades that these
indices have in the background palette, from the last sprite in the table to the first, so that the
first ends up on top.  A sprite pixel with index 0 is not painted, and a sprite that asks to be
behind the background is not painted where the background has an index other than 0.

Sprites of double height are not drawn: the line is left with the background and the window, and
drawing it fails.
-/

set_option autoImplicit false

namespace Handheld

/-- The control register of the screen, by the meaning of its bits. -/
structure LcdControl where
  backgroundOn : Bool
  spritesOn : Bool
  spritesTall : Bool
  backgroundMapHigh : Bool
  tilesUnsigned : Bool
  windowOn : Bool
  windowMapHigh : Bool
  screenOn : Bool

/-- The control register read from its byte. -/
def LcdControl.ofByte (b : UInt8) : LcdControl where
  backgroundOn := b.toNat.testBit 0
  spritesOn := b.toNat.testBit 1
  spritesTall := b.toNat.testBit 2
  backgroundMapHigh := b.toNat.testBit 3
  tilesUnsigned := b.toNat.testBit 4
  windowOn := b.toNat.testBit 5
  windowMapHigh := b.toNat.testBit 6
  screenOn := b.toNat.testBit 7

/-- The control register of a bus. -/
def SystemBus.lcdControl (bus : SystemBus) : LcdControl := .ofByte (bus.get .lcdControl)

/-- A colour index for each pixel of a line. -/
abbrev IndexRow := Vector ColorIndex screenWidth

namespace Scanline

/-- The colour index of two bit planes at a bit. -/
def planeIndex (low high : UInt8) (bit : Nat) : ColorIndex :=
  ⟨2 * (high.toNat.testBit bit).toNat + (low.toNat.testBit bit).toNat, by
    have h := Bool.toNat_lt (high.toNat.testBit bit)
    have l := Bool.toNat_lt (low.toNat.testBit bit)
    omega⟩

/-- The colour index of a tile at a column and a row from 0 to 7.  A row is two bytes, the low bit
plane first; the leftmost pixel is in the highest bit. -/
def tilePixel (bus : SystemBus) (tile : UInt16) (x y : Nat) : ColorIndex :=
  let row := tile + UInt16.ofNat (2 * y)
  planeIndex (bus.peek row) (bus.peek (row + 1)) (7 - x)

/-- Where a tile of the background or the window starts.  In the signed mode numbers from `0x80` on
stand before the base. -/
def backgroundTile (control : LcdControl) (number : UInt8) : UInt16 :=
  if control.tilesUnsigned then 0x8000 + 16 * number.toUInt16
  else 0x9000 + 16 * Word.signExtend number

/-- Where one of the two tile maps starts. -/
def mapBase (high : Bool) : UInt16 := if high then 0x9C00 else 0x9800

/-- The colour index of a tile map at a pixel, both coordinates below 256. -/
def mapPixel (bus : SystemBus) (control : LcdControl) (base : UInt16) (x y : Nat) : ColorIndex :=
  let entry := base + UInt16.ofNat (32 * (y / 8) + x / 8)
  tilePixel bus (backgroundTile control (bus.peek entry)) (x % 8) (y % 8)

/-- The background layer of a line, or nothing if it is switched off. -/
def backgroundRow (bus : SystemBus) (control : LcdControl) (line : Nat) : IndexRow :=
  if control.backgroundOn then
    let base := mapBase control.backgroundMapHigh
    let scrollX := (bus.get .scrollX).toNat
    let y := (line + (bus.get .scrollY).toNat) % 256
    Vector.ofFn fun x ↦ mapPixel bus control base ((x.val + scrollX) % 256) y
  else Vector.replicate screenWidth 0

/-- Paints the window over a line.  The window register holds the left edge plus 7, so an edge less
than 7 is to the left of the screen. -/
def paintWindow (bus : SystemBus) (control : LcdControl) (line : Nat) (row : IndexRow) :
    IndexRow :=
  let top := (bus.get .windowY).toNat
  if control.windowOn ∧ top ≤ line then
    let base := mapBase control.windowMapHigh
    let edge := (bus.get .windowX).toNat
    row.mapFinIdx fun x index _ ↦
      if edge ≤ x + 7 then mapPixel bus control base (x + 7 - edge) (line - top) else index
  else row

/-- The background and window layers of a line. -/
def indexRow (bus : SystemBus) (control : LcdControl) (line : Nat) : IndexRow :=
  paintWindow bus control line (backgroundRow bus control line)

/-- An entry of the sprite table.  `y` is the line of the upper edge plus 16 and `x` the column of
the left edge plus 8, so a sprite at zero is off the screen. -/
structure Sprite where
  y : Nat
  x : Nat
  tile : UInt8
  behindBackground : Bool
  flipY : Bool
  flipX : Bool
  secondPalette : Bool

/-- The number of sprites. -/
def spriteCount : Nat := 40

/-- A sprite of the table. -/
def spriteAt (bus : SystemBus) (number : Nat) : Sprite :=
  let entry := SystemBus.spriteTable + UInt16.ofNat (4 * number)
  let attributes := (bus.peek (entry + 3)).toNat
  { y := (bus.peek entry).toNat
    x := (bus.peek (entry + 1)).toNat
    tile := bus.peek (entry + 2)
    behindBackground := attributes.testBit 7
    flipY := attributes.testBit 6
    flipX := attributes.testBit 5
    secondPalette := attributes.testBit 4 }

namespace Sprite

/-- Whether a sprite has a row on a line. -/
def onLine (s : Sprite) (line : Nat) : Bool := s.y ≤ line + 16 && line + 16 < s.y + 8

/-- The colour index of a sprite at one of its columns, on a line that it has a row on. -/
def pixel (s : Sprite) (bus : SystemBus) (line column : Nat) : ColorIndex :=
  let row := line + 16 - s.y
  tilePixel bus (0x8000 + 16 * s.tile.toUInt16)
    (if s.flipX then 7 - column else column) (if s.flipY then 7 - row else row)

/-- The palette of a sprite. -/
def palette (s : Sprite) (bus : SystemBus) : UInt8 :=
  bus.get (if s.secondPalette then .spritePalette1 else .spritePalette0)

/-- Paints one column of a sprite, if it is on the screen and shows there. -/
def paintColumn (s : Sprite) (bus : SystemBus) (line : Nat) (behind : IndexRow) (row : Row)
    (column : Nat) : Row :=
  if h : 8 ≤ s.x + column ∧ s.x + column - 8 < screenWidth then
    let index := s.pixel bus line column
    if index = 0 then row
    else if s.behindBackground ∧ behind[s.x + column - 8] ≠ 0 then row
    else row.set (s.x + column - 8) (Shade.ofPalette (s.palette bus) index)
  else row

/-- Paints the row that a sprite has on a line. -/
def paint (s : Sprite) (bus : SystemBus) (line : Nat) (behind : IndexRow) (row : Row) : Row :=
  if s.onLine line then (List.range 8).foldl (s.paintColumn bus line behind) row else row

end Sprite

/-- Paints the first `n` sprites, the last of them first. -/
def paintSprites (bus : SystemBus) (line : Nat) (behind : IndexRow) : Nat → Row → Row
  | 0, row => row
  | n + 1, row =>
    paintSprites bus line behind n ((spriteAt bus n).paint bus line behind row)

/-- A line: its row of the screen, and whether it could be drawn in full. -/
def render (bus : SystemBus) (line : Nat) : Outcome Row Unit :=
  let control := bus.lcdControl
  let indices := indexRow bus control line
  let palette := bus.get .backgroundPalette
  let row := indices.map (Shade.ofPalette palette)
  if control.spritesOn then
    if control.spritesTall then { answer := .error .unsupportedSpriteSize, state := row }
    else { answer := .ok (), state := paintSprites bus line indices spriteCount row }
  else { answer := .ok (), state := row }

end Scanline
end Handheld
