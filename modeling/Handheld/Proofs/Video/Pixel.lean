import Handheld.Proofs.Video.TallSprites
import Mathlib.Algebra.GroupWithZero.Nat

/-!
# One pixel at a time

`Scanline.render` paints a line in passes, one over the other: background, window, and forty sprites
from the last to the first, each column by column.  What comes out can be said of one pixel without
any painting (`Scanline.pixel`): the pixel is that of the first sprite in the table that shows there,
and if none does, that of the layers below.  A sprite shows at a pixel if it covers it with a colour
index other than 0, unless it is behind the background and the background has such an index there
too.

The two agree (`Scanline.render_pixels`), and drawing a line puts these pixels on the screen, whatever
was there before.  Addresses and coordinates are numbers here; that the words and bytes of the painter
never wrap where they should not is part of what is proved.

The proof goes through the passes.  Painting one column of a sprite changes at most the pixel that
this column falls on, so painting its row changes a pixel exactly if the sprite shows there
(`Sprite.getElem_paint`).  Painting sprites from the last to the first then leaves the first of them
on top (`getElem_paintSprites`), by induction on their number: what the last one paints is seen where
none before it shows.
-/

set_option autoImplicit false

namespace Handheld
namespace Scanline

variable (bus : SystemBus) (line x : Nat)

/-! ## What a pixel should be -/

/-- There are four colours, so zero is the index of one.  It is an instance so that every zero here
rests on this one fact. -/
theorem neZero_colors : NeZero 4 := ⟨by decide⟩

attribute [local instance] neZero_colors

/-- The byte at an address. -/
def byteAt (a : Nat) : UInt8 := bus.peek (UInt16.ofNat a)

/-- The colour index at column `x` and row `y` of the tile at an address. -/
def tileIndex (tile x y : Nat) : ColorIndex :=
  planeIndex (byteAt bus (tile + 2 * y)) (byteAt bus (tile + 2 * y + 1)) (7 - x)

/-- Where the tile with a number starts, which in the signed mode is from -128 to 127. -/
def tileAddress (unsigned : Bool) (number : UInt8) : Nat :=
  if unsigned then 0x8000 + 16 * number.toNat else (0x9000 + 16 * Word.signed number).toNat

/-- The colour index at `(x, y)` of one of the two maps of 32 by 32 tiles. -/
def mapIndex (high : Bool) (x y : Nat) : ColorIndex :=
  let number := byteAt bus ((if high then 0x9C00 else 0x9800) + (32 * (y / 8) + x / 8))
  tileIndex bus (tileAddress bus.lcdControl.tilesUnsigned number) (x % 8) (y % 8)

/-- The window is on and reaches the pixel. -/
def InWindow : Prop :=
  bus.lcdControl.windowOn = true ∧ (bus.get .windowY).toNat ≤ line ∧
    (bus.get .windowX).toNat ≤ x + 7

instance : Decidable (InWindow bus line x) := inferInstanceAs (Decidable (_ ∧ _ ∧ _))

/-- The colour index below the sprites. -/
def layerIndex : ColorIndex :=
  if InWindow bus line x then
    mapIndex bus bus.lcdControl.windowMapHigh (x + 7 - (bus.get .windowX).toNat)
      (line - (bus.get .windowY).toNat)
  else if bus.lcdControl.backgroundOn then
    mapIndex bus bus.lcdControl.backgroundMapHigh ((x + (bus.get .scrollX).toNat) % 256)
      ((line + (bus.get .scrollY).toNat) % 256)
  else 0

namespace Sprite

variable (s : Sprite)

/-- The column of the left edge, which may be off the screen. -/
def left : Int := s.x - 8

/-- The line of the upper edge. -/
def top : Int := s.y - 16

/-- A sprite covers a square of 8 by 8 pixels. -/
def Covers : Prop :=
  s.left ≤ x ∧ x < s.left + 8 ∧ s.top ≤ line ∧ line < s.top + 8

/-- The colour index of a sprite at a pixel that it covers. -/
def indexAt : ColorIndex :=
  let column := (x - s.left).toNat
  let row := (line - s.top).toNat
  tileIndex bus (0x8000 + 16 * s.tile.toNat) (if s.flipX then 7 - column else column)
    (if s.flipY then 7 - row else row)

/-- A sprite is seen at a pixel, if no other is in front of it. -/
def Shows : Prop :=
  s.Covers line x ∧ s.indexAt bus line x ≠ 0 ∧
    ¬(s.behindBackground = true ∧ layerIndex bus line x ≠ 0)

instance : Decidable (s.Covers line x) := inferInstanceAs (Decidable (_ ∧ _ ∧ _ ∧ _))

instance : Decidable (s.Shows bus line x) := inferInstanceAs (Decidable (_ ∧ _ ∧ _))

/-- The shade of a sprite at a pixel that it covers. -/
def shadeAt : Shade := Shade.ofPalette (s.palette bus) (s.indexAt bus line x)

end Sprite

/-- The first of `n` sprites that shows at a pixel. -/
def firstShown (n : Nat) : Option Sprite :=
  ((List.range n).map (spriteAt bus)).find? fun s ↦ s.Shows bus line x

/-- The shade below the sprites. -/
def layerShade : Shade :=
  Shade.ofPalette (bus.get .backgroundPalette) (layerIndex bus line x)

/-- The shade of a pixel. -/
def pixel : Shade :=
  if bus.lcdControl.spritesOn then
    (firstShown bus line x spriteCount).elim (layerShade bus line x) fun s ↦ s.shadeAt bus line x
  else layerShade bus line x

/-! ## Tiles and maps -/

variable {bus line x}

theorem tilePixel_eq {tile : UInt16} {a : Nat} (h : tile = UInt16.ofNat a) (x y : Nat) :
    tilePixel bus tile x y = tileIndex bus a x y := by
  subst h
  rw [tilePixel, tileIndex, byteAt, byteAt, UInt16.ofNat_add (a + 2 * y), UInt16.ofNat_add a]
  rfl

theorem backgroundTile_eq (control : LcdControl) (number : UInt8) :
    backgroundTile control number = UInt16.ofNat (tileAddress control.tilesUnsigned number) := by
  rw [backgroundTile]
  revert number
  cases control.tilesUnsigned <;> decide +kernel

theorem mapPixel_eq (high : Bool) (x y : Nat) :
    mapPixel bus bus.lcdControl (mapBase high) x y = mapIndex bus high x y := by
  have hbase : mapBase high = UInt16.ofNat (if high then 0x9C00 else 0x9800) := by
    cases high <;> rfl
  rw [mapPixel, mapIndex, byteAt, UInt16.ofNat_add (if high then 0x9C00 else 0x9800), ← hbase]
  exact tilePixel_eq (backgroundTile_eq _ _) _ _

/-! ## The layers below the sprites -/

theorem getElem_backgroundRow (hx : x < screenWidth) :
    (backgroundRow bus bus.lcdControl line)[x] =
      if bus.lcdControl.backgroundOn then
        mapIndex bus bus.lcdControl.backgroundMapHigh ((x + (bus.get .scrollX).toNat) % 256)
          ((line + (bus.get .scrollY).toNat) % 256)
      else 0 := by
  rw [backgroundRow]
  split
  · dsimp only
    rw [Vector.getElem_ofFn, mapPixel_eq]
  · rw [Vector.getElem_replicate]

/-- The window is painted over what it reaches. -/
theorem getElem_paintWindow (row : IndexRow) (hx : x < screenWidth) :
    (paintWindow bus bus.lcdControl line row)[x] =
      if InWindow bus line x then
        mapIndex bus bus.lcdControl.windowMapHigh (x + 7 - (bus.get .windowX).toNat)
          (line - (bus.get .windowY).toNat)
      else row[x] := by
  rw [paintWindow]
  dsimp only
  by_cases hon : bus.lcdControl.windowOn = true ∧ (bus.get .windowY).toNat ≤ line
  · rw [if_pos hon, Vector.getElem_mapFinIdx, mapPixel_eq]
    simp only [InWindow, hon.1, hon.2, true_and]
  · rw [if_neg hon, if_neg fun h ↦ hon ⟨h.1, h.2.1⟩]

theorem getElem_indexRow (hx : x < screenWidth) :
    (indexRow bus bus.lcdControl line)[x] = layerIndex bus line x := by
  rw [indexRow, getElem_paintWindow _ hx, getElem_backgroundRow hx]
  rfl

/-! ## Sprites -/

namespace Sprite

variable {s : Sprite} {behind : IndexRow} {row : Row}

theorem onLine_iff : s.onLine line = true ↔ s.top ≤ line ∧ line < s.top + 8 := by
  rw [onLine, top, Bool.and_eq_true, decide_eq_true_iff, decide_eq_true_iff]
  omega

/-- The painter's colour index, at the column that falls on a pixel. -/
theorem pixel_eq (hx : s.x ≤ x + 8) (hy : s.y ≤ line + 16) :
    s.pixel bus line (x + 8 - s.x) = s.indexAt bus line x := by
  have hcolumn : (x - s.left).toNat = x + 8 - s.x := by
    rw [left]
    omega
  have hrow : (line - s.top).toNat = line + 16 - s.y := by
    rw [top]
    omega
  rw [pixel, indexAt, hcolumn, hrow]
  refine tilePixel_eq ?_ _ _
  rw [UInt16.ofNat_add, UInt16.ofNat_mul, UInt16.ofNat_uInt8ToNat]
  rfl

section Paint

variable (hbehind : ∀ x (hx : x < screenWidth), behind[x] = layerIndex bus line x)
  (hline : s.onLine line = true)

include hbehind hline in
/-- A column of a sprite is painted on the pixel that it falls on, if the sprite shows there. -/
theorem getElem_paintColumn {column : Nat} (hcolumn : column < 8) (hx : x < screenWidth) :
    (s.paintColumn bus line behind row column)[x] =
      if s.x + column = x + 8 ∧ s.Shows bus line x then s.shadeAt bus line x else row[x] := by
  have hrows := onLine_iff.1 hline
  rw [top] at hrows
  rw [paintColumn]
  -- the painter looks at the column, the specification at the pixel: do they meet?
  by_cases hfalls : s.x + column = x + 8
  · have hcovers : s.Covers line x := by
      rw [Covers, left, top]
      omega
    have hindex : s.pixel bus line column = s.indexAt bus line x := by
      rw [← pixel_eq (by omega) (by omega)]
      congr 1
      omega
    have hplace : s.x + column - 8 = x := by omega
    have hlayer (h : s.x + column - 8 < screenWidth) :
        behind[s.x + column - 8] = layerIndex bus line x := by
      rw [hbehind, hplace]
    rw [dif_pos ⟨by omega, by omega⟩]
    dsimp only
    rw [hindex, hlayer]
    by_cases hzero : s.indexAt bus line x = 0
    · rw [if_pos hzero, if_neg fun h ↦ h.2.2.1 hzero]
    by_cases hhidden : s.behindBackground = true ∧ layerIndex bus line x ≠ 0
    · rw [if_neg hzero, if_pos hhidden, if_neg fun h ↦ h.2.2.2 hhidden]
    · rw [if_neg hzero, if_neg hhidden, if_pos ⟨hfalls, hcovers, hzero, hhidden⟩,
        Vector.getElem_set, if_pos hplace]
      rfl
  · rw [if_neg fun h ↦ hfalls h.1]
    split
    · dsimp only
      split
      · rfl
      split
      · rfl
      · rw [Vector.getElem_set, if_neg (by omega)]
    · rfl

include hbehind hline in
theorem getElem_foldl_paintColumn {columns : List Nat} (hcolumns : ∀ c ∈ columns, c < 8)
    (hx : x < screenWidth) :
    (columns.foldl (s.paintColumn bus line behind) row)[x] =
      if (∃ c ∈ columns, s.x + c = x + 8) ∧ s.Shows bus line x then s.shadeAt bus line x
      else row[x] := by
  induction columns generalizing row with
  | nil => simp
  | cons c columns ih =>
    rw [List.foldl_cons, ih fun d hd ↦ hcolumns d (List.mem_cons_of_mem _ hd),
      getElem_paintColumn hbehind hline (hcolumns c List.mem_cons_self) hx]
    by_cases hshows : s.Shows bus line x
    · by_cases hlater : ∃ d ∈ columns, s.x + d = x + 8
      · simp [hshows, hlater]
      · simp [hshows, hlater]
    · simp [hshows]

end Paint

/-- **Painting a sprite changes the pixels at which it shows.** -/
theorem getElem_paint
    (hbehind : ∀ x (hx : x < screenWidth), behind[x] = layerIndex bus line x)
    (hx : x < screenWidth) :
    (s.paint bus line behind row)[x] =
      if s.Shows bus line x then s.shadeAt bus line x else row[x] := by
  rw [paint]
  split
  · rename_i hline
    rw [getElem_foldl_paintColumn hbehind hline (fun c ↦ List.mem_range.1) hx]
    have hfalls (h : s.Shows bus line x) : ∃ c ∈ List.range 8, s.x + c = x + 8 := by
      obtain ⟨hleft, hright, -⟩ := h.1
      rw [left] at hleft hright
      exact ⟨x + 8 - s.x, List.mem_range.2 (by omega), by omega⟩
    simp only [and_iff_right_of_imp hfalls]
  · rename_i hline
    have hno : ¬s.Shows bus line x := fun h ↦ hline (onLine_iff.2 h.1.2.2)
    rw [if_neg hno]

end Sprite

/-- Of one sprite more, the last is only seen where no other shows. -/
theorem firstShown_succ (n : Nat) :
    firstShown bus line x (n + 1) =
      (firstShown bus line x n).or
        (if (spriteAt bus n).Shows bus line x then some (spriteAt bus n) else none) := by
  rw [firstShown, firstShown, List.range_succ, List.map_append, List.find?_append]
  simp

/-- **The first sprite that shows is on top.** -/
theorem getElem_paintSprites {behind : IndexRow}
    (hbehind : ∀ x (hx : x < screenWidth), behind[x] = layerIndex bus line x) (n : Nat) (row : Row)
    (hx : x < screenWidth) :
    (paintSprites bus line behind n row)[x] =
      (firstShown bus line x n).elim row[x] fun s ↦ s.shadeAt bus line x := by
  induction n generalizing row with
  | zero => rfl
  | succ n ih =>
    rw [paintSprites, ih, Sprite.getElem_paint hbehind hx, firstShown_succ]
    -- sprite `n` is painted first, so what it paints is seen where none of the `n` before it shows
    cases firstShown bus line x n with
    | some s => rfl
    | none =>
      rw [Option.none_or]
      split <;> rfl

/-! ## A sprite in the corner -/

/-- A bus with one sprite, in the upper left corner of the screen: its first pixel has the colour
index 1, which its palette makes black. -/
def cornerSprite : SystemBus :=
  ((((SystemBus.blank.set .lcdControl 0x82).set .spritePalette0 0x0C).poke 0xFE00 16).poke 0xFE01
    8).poke 0x8000 0x80

theorem lcdControl_cornerSprite : cornerSprite.lcdControl = .ofByte 0x82 := by
  simp [SystemBus.lcdControl, SystemBus.get, cornerSprite, SystemBus.set, SystemBus.peek_poke,
    IoRegister.address]

theorem control_cornerSprite :
    ¬cornerSprite.lcdControl.TallSprites ∧ cornerSprite.lcdControl.screenOn = true := by
  rw [lcdControl_cornerSprite]
  decide

theorem pixel_cornerSprite : pixel cornerSprite 0 0 = .black := by
  have hpeek (a : UInt16) : cornerSprite.peek a =
      if a = 0x8000 then 0x80 else if a = 0xFE01 then 8 else if a = 0xFE00 then 16
      else if a = 0xFF48 then 0x0C else if a = 0xFF40 then 0x82 else 0 := by
    simp [cornerSprite, SystemBus.set, SystemBus.peek_poke, IoRegister.address,
      SystemBus.isBlank_blank.peek_eq]
  have hsprite : spriteAt cornerSprite 0 =
      { y := 16, x := 8, tile := 0, behindBackground := false, flipY := false, flipX := false,
        secondPalette := false } := by
    simp only [spriteAt, hpeek]
    rfl
  have hindex : (spriteAt cornerSprite 0).indexAt cornerSprite 0 0 = 1 := by
    simp only [hsprite, Sprite.indexAt, tileIndex, byteAt, hpeek]
    rfl
  have hshows : (spriteAt cornerSprite 0).Shows cornerSprite 0 0 := by
    rw [Sprite.Shows, hindex, hsprite]
    exact ⟨by decide, by decide, fun h ↦ absurd h.1 (by decide)⟩
  have hfirst : firstShown cornerSprite 0 0 spriteCount = some (spriteAt cornerSprite 0) :=
    List.find?_cons_of_pos (by simpa using hshows)
  rw [pixel, lcdControl_cornerSprite, if_pos (by decide), hfirst, Option.elim_some, Sprite.shadeAt,
    hindex, Sprite.palette, hsprite, SystemBus.get, hpeek]
  rfl

/-! ## The whole line -/

theorem getElem_render (htall : ¬bus.lcdControl.TallSprites) (hx : x < screenWidth) :
    (render bus line).state[x] = pixel bus line x := by
  have hlayer (hx : x < screenWidth) :
      ((indexRow bus bus.lcdControl line).map
        (Shade.ofPalette (bus.get .backgroundPalette)))[x] = layerShade bus line x := by
    rw [Vector.getElem_map, getElem_indexRow, layerShade]
  rw [render, pixel]
  by_cases hon : bus.lcdControl.spritesOn = true
  · have hsmall : ¬bus.lcdControl.spritesTall = true := fun h ↦ htall ⟨hon, h⟩
    simp only [if_pos hon, if_neg hsmall]
    rw [getElem_paintSprites (fun x hx ↦ getElem_indexRow hx), hlayer]
  · simp only [if_neg hon]
    exact hlayer hx

/-- **A line is what it should be, pixel by pixel.**  Unless tall sprites are asked for, drawing a
visible line succeeds, and gives each pixel the shade of the first sprite that shows there, or of
the layers below; and these are the pixels that the line has on the screen when the picture unit has
drawn it, whatever was there before. -/
theorem render_pixels {line : Nat} (hline : line < screenHeight)
    (htall : ¬bus.lcdControl.TallSprites) :
    (render bus line).answer = .ok () ∧
      (∀ x (hx : x < screenWidth), (render bus line).state[x] = pixel bus line x) ∧
      ∀ ppu : Ppu, ppu.line = line → bus.lcdControl.screenOn = true →
        (Scan.drawLine ⟨ppu, bus⟩).answer = .ok () ∧
          ∀ x (hx : x < screenWidth),
            ((Scan.drawLine ⟨ppu, bus⟩).state.ppu.screen.row ⟨line, hline⟩)[x] =
              pixel bus line x := by
  have hanswer : (render bus line).answer = .ok () := by
    rw [render_answer, if_neg htall]
  refine ⟨hanswer, fun x hx ↦ getElem_render htall hx, fun ppu hppu hon ↦ ?_⟩
  subst hppu
  rw [Scan.drawLine, dif_pos hline, if_pos hon]
  refine ⟨hanswer, fun x hx ↦ ?_⟩
  rw [Screen.row_setRow, if_pos rfl, getElem_render htall hx]

/-- The pixel in the corner is black, whatever the screen was before. -/
theorem render_pixels_cornerSprite :
    ¬cornerSprite.lcdControl.TallSprites ∧
      (render cornerSprite 0).state[0] = .black ∧
      ∀ ppu : Ppu, ppu.line = 0 →
        ((Scan.drawLine ⟨ppu, cornerSprite⟩).state.ppu.screen.row ⟨0, by decide⟩)[0] = .black := by
  obtain ⟨htall, hon⟩ := control_cornerSprite
  obtain ⟨-, hrow, hscreen⟩ := render_pixels (show 0 < screenHeight by decide) htall
  refine ⟨htall, (hrow 0 (by decide)).trans pixel_cornerSprite, fun ppu hppu ↦ ?_⟩
  exact ((hscreen ppu hppu hon).2 0 (by decide)).trans pixel_cornerSprite

end Scanline
end Handheld
