import Handheld.Proofs.Video.Pixel

/-!
# Drawing under strict conditions

`Scanline.render` looks at a whole bus and calculates with numbers of any size.  Here is a painter
that draws under the conditions that a machine sets it, and gives up where they are not met:

* it sees no bus, but a memory that answers where a line may be drawn from and nowhere else
  (`Scanline.visible`), and it gives up where it gets no answer;
* it calculates in bytes, words and signed words, and gives up where a sum, a difference, a product
  or a conversion does not fit, where a byte is shifted by its width or more, and where an index is
  not in its row.  Only the scrolled coordinates wrap around, as they are meant to.

That it never gives up, and that it draws what `Scanline.render` draws, is for
`Handheld.Proofs.Video.Visible`.
-/

set_option autoImplicit false

namespace Handheld
namespace Scanline

/-! ## What may be looked at -/

/-- The registers that a line is drawn from, the control register apart. -/
def drawingRegisters : List IoRegister :=
  [.backgroundPalette, .spritePalette0, .spritePalette1, .scrollX, .scrollY, .windowX, .windowY]

/-- An address that a line may be drawn from. -/
def IsVisible (a : UInt16) : Prop :=
  0x8000 ≤ a ∧ a ≤ 0x9FFF ∨ 0xFE00 ≤ a ∧ a ≤ 0xFE9F ∨ ∃ r ∈ drawingRegisters, a = r.address

instance (a : UInt16) : Decidable (IsVisible a) :=
  inferInstanceAs (Decidable (_ ∨ _ ∨ _))

/-- A memory that answers where a line may be drawn from. -/
def visible (bus : SystemBus) (a : UInt16) : Option UInt8 :=
  if IsVisible a then some (bus.peek a) else none

theorem visible_of_isVisible (bus : SystemBus) {a : UInt16} (h : IsVisible a) :
    visible bus a = some (bus.peek a) :=
  if_pos h

theorem visible_videoMemory (bus : SystemBus) {a : UInt16} (hlow : 0x8000 ≤ a.toNat)
    (hhigh : a.toNat ≤ 0x9FFF) : visible bus a = some (bus.peek a) :=
  visible_of_isVisible bus
    (Or.inl ⟨UInt16.le_iff_toNat_le.2 hlow, UInt16.le_iff_toNat_le.2 hhigh⟩)

theorem visible_spriteTable (bus : SystemBus) {a : UInt16} (hlow : 0xFE00 ≤ a.toNat)
    (hhigh : a.toNat ≤ 0xFE9F) : visible bus a = some (bus.peek a) :=
  visible_of_isVisible bus
    (Or.inr (Or.inl ⟨UInt16.le_iff_toNat_le.2 hlow, UInt16.le_iff_toNat_le.2 hhigh⟩))

theorem visible_register (bus : SystemBus) {r : IoRegister} (h : r ∈ drawingRegisters) :
    visible bus r.address = some (bus.get r) :=
  visible_of_isVisible bus (Or.inr (Or.inr ⟨r, h, rfl⟩))

/-! ## Numbers that have to fit -/

namespace Strict

/-- The byte that is a number, if one is. -/
def byte? (n : Int) : Option UInt8 :=
  if 0 ≤ n ∧ n < 256 then some (UInt8.ofNat n.toNat) else none

/-- The word that is a number, if one is. -/
def word? (n : Int) : Option UInt16 :=
  if 0 ≤ n ∧ n < 65536 then some (UInt16.ofNat n.toNat) else none

/-- A number, if it fits a signed word. -/
def signed? (n : Int) : Option Int := if -32768 ≤ n ∧ n < 32768 then some n else none

/-- A byte shifted to the right, by less than its width. -/
def shiftRight? (b amount : UInt8) : Option UInt8 :=
  if amount < 8 then some (b >>> amount) else none

variable {α : Type} {n : Nat}

/-- What stands at a place of a row, if the place is there. -/
def get? (row : Vector α n) (i : Int) : Option α := if 0 ≤ i then row[i.toNat]? else none

/-- The row with something else at a place, if the place is there. -/
def set? (row : Vector α n) (i : Int) (v : α) : Option (Vector α n) :=
  if h : 0 ≤ i ∧ i.toNat < n then some (row.set i.toNat v h.2) else none

/-- A calculation goes on with what its first part gives. -/
theorem bind_eq_some {β γ : Type} {first : Option β} {rest : β → Option γ} {b : β} {c : γ}
    (hfirst : first = some b) (hrest : rest b = some c) : first >>= rest = some c :=
  Option.bind_eq_some_iff.2 ⟨b, hfirst, hrest⟩

theorem byte?_eq_some {n : Int} {b : UInt8} (h : b.toNat = n) : byte? n = some b := by
  have hb := b.toNat_lt
  subst h
  rw [byte?, if_pos (by omega), Int.toNat_natCast, UInt8.ofNat_toNat]

theorem word?_eq_some {n : Int} {w : UInt16} (h : w.toNat = n) : word? n = some w := by
  have hw := w.toNat_lt
  subst h
  rw [word?, if_pos (by omega), Int.toNat_natCast, UInt16.ofNat_toNat]

theorem exists_byte {n : Nat} (h : n < 256) : ∃ b : UInt8, b.toNat = n :=
  ⟨UInt8.ofNat n, UInt8.toNat_ofNat_of_lt' h⟩

theorem exists_word {n : Nat} (h : n < 65536) : ∃ w : UInt16, w.toNat = n :=
  ⟨UInt16.ofNat n, UInt16.toNat_ofNat_of_lt' h⟩

theorem signed?_eq_some {n : Int} (hlow : -32768 ≤ n) (hhigh : n < 32768) : signed? n = some n :=
  if_pos ⟨hlow, hhigh⟩

theorem shiftRight?_eq_some (b : UInt8) {amount : UInt8} (h : amount.toNat < 8) :
    shiftRight? b amount = some (b >>> amount) :=
  if_pos (UInt8.lt_iff_toNat_lt.2 h)

theorem get?_eq_some (row : Vector α n) {i : Nat} (h : i < n) : get? row i = some row[i] := by
  rw [get?, if_pos (Int.natCast_nonneg i), Int.toNat_natCast, Vector.getElem?_eq_getElem h]

theorem set?_eq_some (row : Vector α n) {i : Nat} (h : i < n) (v : α) :
    set? row i v = some (row.set i v) := by
  rw [set?, dif_pos ⟨Int.natCast_nonneg i, h⟩]
  rfl

/-! ## The painter -/

/-- What a painter sees. -/
abbrev View := UInt16 → Option UInt8

variable (view : View) (control : LcdControl)

/-- The colour index of a tile at a column and a row. -/
def tilePixel (tile : UInt16) (x y : UInt8) : Option UInt8 := do
  let offset ← word? (2 * y.toNat)
  let row ← word? (tile.toNat + offset.toNat)
  let next ← word? (row.toNat + 1)
  let bit ← byte? (7 - x.toNat)
  let low ← shiftRight? (← view row) bit
  let high ← shiftRight? (← view next) bit
  return (high &&& 1) <<< 1 ||| (low &&& 1)

/-- Where a tile of the background or the window starts. -/
def backgroundTile (number : UInt8) : Option UInt16 := do
  if control.tilesUnsigned then
    let offset ← word? (16 * number.toNat)
    word? (0x8000 + offset.toNat)
  else
    let offset ← signed? (16 * Word.signed number)
    word? (0x9000 + offset)

/-- The colour index of a tile map at a pixel. -/
def mapPixel (base : UInt16) (x y : UInt8) : Option UInt8 := do
  let above ← word? (y.toNat / 8 * 32)
  let first ← word? (base.toNat + above.toNat)
  let entry ← word? (first.toNat + x.toNat / 8)
  let tile ← backgroundTile control (← view entry)
  tilePixel view tile (x &&& 7) (y &&& 7)

/-- Paints some places of a row, one after another. -/
def paintEach (pixel : Nat → Option α) (places : List Nat) (row : Vector α n) :
    Option (Vector α n) :=
  places.foldlM
    (fun row x ↦ do
      let v ← pixel x
      set? row x v)
    row

/-- The background layer of a line.  The coordinates wrap around the map. -/
def backgroundRow (line : UInt8) : Option (Vector UInt8 screenWidth) := do
  if control.backgroundOn then
    let scrollX ← view IoRegister.scrollX.address
    let scrollY ← view IoRegister.scrollY.address
    paintEach
      (fun x ↦ do
        let column ← byte? x
        mapPixel view control (mapBase control.backgroundMapHigh) (column + scrollX)
          (line + scrollY))
      (List.range screenWidth) (Vector.replicate screenWidth 0)
  else return Vector.replicate screenWidth 0

/-- Paints the window over a line. -/
def paintWindow (line : UInt8) (row : Vector UInt8 screenWidth) :
    Option (Vector UInt8 screenWidth) := do
  let top ← view IoRegister.windowY.address
  if control.windowOn ∧ top ≤ line then
    let left ← signed? ((← view IoRegister.windowX.address).toNat - 7)
    let y ← byte? (line.toNat - top.toNat)
    let start := (max left 0).toNat
    paintEach
      (fun x ↦ do
        let distance ← signed? (x - left)
        let column ← byte? distance
        mapPixel view control (mapBase control.windowMapHigh) column y)
      (List.range' start (screenWidth - start)) row
  else return row

/-- The shade that a palette gives to a colour index. -/
def shade (palette index : UInt8) : Option Shade := do
  let amount ← byte? (2 * index.toNat)
  let bits ← shiftRight? palette amount
  return match bits &&& 3 with
    | 0 => .white
    | 1 => .lightGrey
    | 2 => .darkGrey
    | _ => .black

/-- Paints one column of a sprite, if it is on the screen and shows there. -/
def paintColumn (tile : UInt16) (left : Int) (row attributes palette : UInt8)
    (behind : Vector UInt8 screenWidth) (out : Row) (column : Nat) : Option Row := do
  let x ← signed? (left + column)
  if x < 0 ∨ screenWidth ≤ x then return out
  else
    let mirrored ← signed? (if attributes.toNat.testBit 5 then 7 - column else column)
    let index ← tilePixel view tile (← byte? mirrored) row
    let under ← get? behind x
    if index = 0 then return out
    else if attributes.toNat.testBit 7 ∧ under ≠ 0 then return out
    else set? out x (← shade palette index)

/-- Paints a row of a sprite, counted from its upper edge. -/
def paintRow (tile attributes : UInt8) (left row : Int) (behind : Vector UInt8 screenWidth)
    (out : Row) : Option Row := do
  let mirrored ← signed? (if attributes.toNat.testBit 6 then 7 - row else row)
  let row ← byte? mirrored
  let palette ← view
    (if attributes.toNat.testBit 4 then IoRegister.spritePalette1
      else IoRegister.spritePalette0).address
  let start ← word? (16 * tile.toNat)
  let tile ← word? (0x8000 + start.toNat)
  (List.range 8).foldlM (paintColumn view tile left row attributes palette behind) out

/-- Paints a sprite of the table, if it has a row on the line. -/
def paintSprite (line : UInt8) (behind : Vector UInt8 screenWidth) (out : Row) (number : Nat) :
    Option Row := do
  let offset ← word? (4 * number)
  let entry ← word? (SystemBus.spriteTable.toNat + offset.toNat)
  let top ← signed? ((← view entry).toNat - 16)
  let left ← signed? ((← view (← word? (entry.toNat + 1))).toNat - 8)
  let tile ← view (← word? (entry.toNat + 2))
  let attributes ← view (← word? (entry.toNat + 3))
  let row ← signed? (line.toNat - top)
  if 0 ≤ row ∧ row < 8 then paintRow view tile attributes left row behind out else return out

/-- Draws a line over what was there, and says whether it could be drawn in full. -/
def render (line : UInt8) (out : Row) : Option (Outcome Row Unit) := do
  let background ← backgroundRow view control line
  let indices ← paintWindow view control line background
  let palette ← view IoRegister.backgroundPalette.address
  let out ← paintEach (fun x ↦ do shade palette (← get? indices x)) (List.range screenWidth) out
  if control.spritesOn then
    if control.spritesTall then return { answer := .error .unsupportedSpriteSize, state := out }
    else
      let out ← (List.range spriteCount).reverse.foldlM (paintSprite view line indices) out
      return { answer := .ok (), state := out }
  else return { answer := .ok (), state := out }

end Strict
end Scanline
end Handheld
