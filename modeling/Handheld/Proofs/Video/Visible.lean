import Handheld.Proofs.Video.Strict

/-!
# Drawing with nothing but video memory

A line is drawn from video memory, from the sprite table and from seven registers, the control
register being given; and none of the numbers that come up on the way leaves the byte or the word
that it is kept in.  Both are said of the strict painter (`Scanline.Strict.render`): it never gives
up, and what it draws is what `Scanline.render` draws (`Scanline.render_visible`).  So whatever else
two buses hold, their lines are the same if they look the same to it.

Each part of the painter is matched with the part of `Scanline.render` that it stands for, a colour
index being a byte for the one and a number below 4 for the other (`indexByte`).  The conditions are
met because of what the parts are given: a tile starts in the first three quarters of video memory,
columns and rows within a tile are less than 8, and a place that is painted is on the line.
-/

set_option autoImplicit false

namespace Handheld

/-! ## Ranges -/

theorem Word.signed_range (b : UInt8) : -128 ≤ signed b ∧ signed b ≤ 127 := by
  have hb := b.toNat_lt
  simp only [signed, UInt8.lt_iff_toNat_lt, UInt8.reduceToNat]
  split <;> omega

namespace Scanline

/-- The tiles of a map are in the first three quarters of video memory. -/
theorem tileAddress_range (unsigned : Bool) (number : UInt8) :
    0x8000 ≤ tileAddress unsigned number ∧ tileAddress unsigned number ≤ 0x97F0 := by
  have hnumber := number.toNat_lt
  have hsigned := Word.signed_range number
  rw [tileAddress]
  split <;> omega

/-- The sprite table does not run into the end of memory. -/
theorem toNat_spriteEntry {number : Nat} (hnumber : number < spriteCount) :
    (SystemBus.spriteTable + UInt16.ofNat (4 * number)).toNat = 0xFE00 + 4 * number := by
  have hlt : number < 40 := hnumber
  rw [UInt16.toNat_add, UInt16.toNat_ofNat', SystemBus.spriteTable]
  simp only [UInt16.reduceToNat]
  omega

namespace Strict

variable {bus : SystemBus} {control : LcdControl}

/-! ## Colour indices -/

/-- A colour index as a byte. -/
def indexByte (i : ColorIndex) : UInt8 := UInt8.ofNat i.val

theorem indexByte_eq_zero_iff (i : ColorIndex) : indexByte i = 0 ↔ i = 0 := by
  revert i
  decide

theorem shiftRight_and_one (b : UInt8) {bit : UInt8} (h : bit.toNat < 8) :
    b >>> bit &&& 1 = UInt8.ofNat (b.toNat.testBit bit.toNat).toNat := by
  rw [← UInt8.toNat_inj, UInt8.toNat_and, UInt8.toNat_shiftRight, Nat.mod_eq_of_lt h,
    UInt8.toNat_ofNat', Nat.toNat_testBit, ← Nat.shiftRight_eq_div_pow]
  simp only [UInt8.reduceToNat]
  rw [Nat.and_one_is_mod]
  omega

/-- Two bit planes give a bit each. -/
theorem planes_eq (low high : UInt8) {bit : UInt8} (h : bit.toNat < 8) :
    (high >>> bit &&& 1) <<< 1 ||| (low >>> bit &&& 1) =
      indexByte (planeIndex low high bit.toNat) := by
  rw [shiftRight_and_one _ h, shiftRight_and_one _ h, indexByte, planeIndex]
  dsimp only
  cases high.toNat.testBit bit.toNat <;> cases low.toNat.testBit bit.toNat <;> rfl

theorem shade_eq (palette : UInt8) (i : ColorIndex) :
    shade palette (indexByte i) = some (Shade.ofPalette palette i) := by
  revert palette i
  decide +kernel

/-! ## Tiles and maps -/

/-- A tile in the first three quarters of video memory ends there too. -/
theorem tilePixel_eq {tile : UInt16} (hlow : 0x8000 ≤ tile.toNat) (hhigh : tile.toNat ≤ 0x97F0)
    {x y : UInt8} (hx : x.toNat < 8) (hy : y.toNat < 8) :
    tilePixel (visible bus) tile x y =
      some (indexByte (Scanline.tilePixel bus tile x.toNat y.toNat)) := by
  obtain ⟨offset, hoffset⟩ := exists_word (n := 2 * y.toNat) (by omega)
  have hrow : (tile + UInt16.ofNat (2 * y.toNat)).toNat = tile.toNat + offset.toNat := by
    rw [UInt16.toNat_add, UInt16.toNat_ofNat']
    omega
  rw [Scanline.tilePixel]
  generalize tile + UInt16.ofNat (2 * y.toNat) = row at hrow
  have hnext : (row + 1).toNat = row.toNat + 1 := by
    rw [UInt16.toNat_add]
    simp only [UInt16.reduceToNat]
    omega
  obtain ⟨bit, hbit⟩ := exists_byte (n := 7 - x.toNat) (by omega)
  refine bind_eq_some (word?_eq_some (w := offset) (by omega)) ?_
  refine bind_eq_some (word?_eq_some (w := row) (by omega)) ?_
  refine bind_eq_some (word?_eq_some (w := row + 1) (by omega)) ?_
  refine bind_eq_some (byte?_eq_some (b := bit) (by omega)) ?_
  refine bind_eq_some (visible_videoMemory bus (by omega) (by omega)) ?_
  refine bind_eq_some (shiftRight?_eq_some _ (by omega)) ?_
  refine bind_eq_some (visible_videoMemory bus (by omega) (by omega)) ?_
  refine bind_eq_some (shiftRight?_eq_some _ (by omega)) ?_
  rw [← hbit]
  exact congrArg some (planes_eq _ _ (by omega))

theorem toNat_backgroundTile (control : LcdControl) (number : UInt8) :
    (Scanline.backgroundTile control number).toNat = tileAddress control.tilesUnsigned number := by
  obtain ⟨-, hhigh⟩ := tileAddress_range control.tilesUnsigned number
  rw [Scanline.backgroundTile_eq, UInt16.toNat_ofNat']
  omega

theorem backgroundTile_eq_some (control : LcdControl) (number : UInt8) :
    backgroundTile control number = some (Scanline.backgroundTile control number) := by
  have hnumber := number.toNat_lt
  have hsigned := Word.signed_range number
  have hplace := toNat_backgroundTile control number
  rw [tileAddress] at hplace
  rw [backgroundTile]
  split
  · rename_i hunsigned
    rw [if_pos hunsigned] at hplace
    obtain ⟨offset, hoffset⟩ := exists_word (n := 16 * number.toNat) (by omega)
    refine bind_eq_some (word?_eq_some (w := offset) (by omega)) ?_
    exact word?_eq_some (by omega)
  · rename_i hunsigned
    rw [if_neg hunsigned] at hplace
    refine bind_eq_some (signed?_eq_some (by omega) (by omega)) ?_
    exact word?_eq_some (by omega)

theorem mapPixel_eq (high : Bool) (x y : UInt8) :
    mapPixel (visible bus) control (mapBase high) x y =
      some (indexByte (Scanline.mapPixel bus control (mapBase high) x.toNat y.toNat)) := by
  have hx := x.toNat_lt
  have hy := y.toNat_lt
  have hbase : 0x9800 ≤ (mapBase high).toNat ∧ (mapBase high).toNat ≤ 0x9C00 := by
    cases high <;> decide
  obtain ⟨above, habove⟩ := exists_word (n := y.toNat / 8 * 32) (by omega)
  obtain ⟨first, hfirst⟩ := exists_word (n := (mapBase high).toNat + above.toNat) (by omega)
  have hentry : (mapBase high + UInt16.ofNat (32 * (y.toNat / 8) + x.toNat / 8)).toNat =
      first.toNat + x.toNat / 8 := by
    rw [UInt16.toNat_add, UInt16.toNat_ofNat']
    omega
  have hmod (b : UInt8) : (b &&& 7).toNat = b.toNat % 8 := by
    rw [UInt8.toNat_and]
    exact Nat.and_two_pow_sub_one_eq_mod b.toNat 3
  rw [Scanline.mapPixel]
  generalize mapBase high + UInt16.ofNat (32 * (y.toNat / 8) + x.toNat / 8) = entry at hentry
  refine bind_eq_some (word?_eq_some (w := above) (by omega)) ?_
  refine bind_eq_some (word?_eq_some (w := first) (by omega)) ?_
  refine bind_eq_some (word?_eq_some (w := entry) (by omega)) ?_
  refine bind_eq_some (visible_videoMemory bus (by omega) (by omega)) ?_
  refine bind_eq_some (backgroundTile_eq_some control _) ?_
  obtain ⟨hlow, hhigh⟩ := tileAddress_range control.tilesUnsigned (bus.peek entry)
  rw [← toNat_backgroundTile] at hlow hhigh
  rw [tilePixel_eq hlow hhigh (by rw [hmod]; omega) (by rw [hmod]; omega), hmod, hmod]

/-! ## Rows -/

section Rows

variable {α : Type} {n : Nat}

/-- A row can be painted if every place is there and has a pixel.  The outcome is known by what it
has at these places, and at the others. -/
theorem paintEach_eq {pixel : Nat → Option α} {places : List Nat} {row painted : Vector α n}
    (hplaces : ∀ x ∈ places, x < n)
    (hpixel : ∀ x (hx : x < n), x ∈ places → pixel x = some painted[x])
    (hrest : ∀ x (hx : x < n), x ∉ places → painted[x] = row[x]) :
    paintEach pixel places row = some painted := by
  induction places generalizing row with
  | nil => exact congrArg some (Vector.ext fun x hx ↦ (hrest x hx List.not_mem_nil).symm)
  | cons place places ih =>
    have hplace : place < n := hplaces place List.mem_cons_self
    rw [paintEach, List.foldlM_cons]
    refine bind_eq_some (b := row.set place painted[place]) ?_ ?_
    · exact bind_eq_some (hpixel place hplace List.mem_cons_self) (set?_eq_some row hplace _)
    refine ih (fun x hx ↦ hplaces x (List.mem_cons_of_mem _ hx))
      (fun x hx hmem ↦ hpixel x hx (List.mem_cons_of_mem _ hmem)) fun x hx hmem ↦ ?_
    rw [Vector.getElem_set]
    split
    · rename_i heq
      subst heq
      rfl
    · rename_i hne
      exact hrest x hx fun h ↦ (List.mem_cons.1 h).elim (fun e ↦ hne e.symm) hmem

/-- A row can be painted all over, whatever was there before. -/
theorem paintEach_range_eq {pixel : Nat → Option α} {painted : Vector α n}
    (hpixel : ∀ x (hx : x < n), pixel x = some painted[x]) (row : Vector α n) :
    paintEach pixel (List.range n) row = some painted :=
  paintEach_eq (fun _ ↦ List.mem_range.1) (fun x hx _ ↦ hpixel x hx) fun _ hx hmem ↦
    absurd (List.mem_range.2 hx) hmem

end Rows

/-- A row of colour indices as a row of bytes. -/
def indexBytes (row : IndexRow) : Vector UInt8 screenWidth := row.map indexByte

theorem getElem_indexBytes (row : IndexRow) {x : Nat} (hx : x < screenWidth) :
    (indexBytes row)[x] = indexByte row[x] :=
  Vector.getElem_map _ _

theorem backgroundRow_eq (line : UInt8) :
    backgroundRow (visible bus) control line =
      some (indexBytes (Scanline.backgroundRow bus control line.toNat)) := by
  rw [backgroundRow, Scanline.backgroundRow]
  split
  · refine bind_eq_some (visible_register bus (by decide)) ?_
    refine bind_eq_some (visible_register bus (by decide)) ?_
    refine paintEach_range_eq (fun x hx ↦ ?_) _
    obtain ⟨column, hcolumn⟩ := exists_byte (n := x) (Nat.lt_trans hx (by decide))
    refine bind_eq_some (byte?_eq_some (b := column) (by omega)) ?_
    rw [mapPixel_eq, getElem_indexBytes _ hx, Vector.getElem_ofFn, UInt8.toNat_add, hcolumn,
      UInt8.toNat_add]
  · refine congrArg some (Eq.symm ?_)
    rw [indexBytes, Vector.map_replicate]
    rfl

theorem paintWindow_eq (line : UInt8) (row : IndexRow) :
    paintWindow (visible bus) control line (indexBytes row) =
      some (indexBytes (Scanline.paintWindow bus control line.toNat row)) := by
  have hline := line.toNat_lt
  have hedge := (bus.get .windowX).toNat_lt
  have hwidth : screenWidth = 160 := rfl
  refine bind_eq_some (visible_register bus (by decide)) ?_
  rw [Scanline.paintWindow]
  dsimp only
  by_cases hon : control.windowOn = true ∧ bus.get .windowY ≤ line
  · have htop : (bus.get .windowY).toNat ≤ line.toNat := UInt8.le_iff_toNat_le.1 hon.2
    obtain ⟨y, hy⟩ := exists_byte (n := line.toNat - (bus.get .windowY).toNat) (by omega)
    rw [if_pos hon, if_pos ⟨hon.1, htop⟩]
    refine bind_eq_some (visible_register bus (by decide)) ?_
    refine bind_eq_some (signed?_eq_some (by omega) (by omega)) ?_
    refine bind_eq_some (byte?_eq_some (b := y) (by omega)) ?_
    refine paintEach_eq (fun x hx ↦ ?_) (fun x hx hmem ↦ ?_) fun x hx hmem ↦ ?_
    · rw [List.mem_range'_1] at hx
      omega
    · rw [List.mem_range'_1] at hmem
      obtain ⟨column, hcolumn⟩ :=
        exists_byte (n := x + 7 - (bus.get .windowX).toNat) (by omega)
      refine bind_eq_some (signed?_eq_some (by omega) (by omega)) ?_
      refine bind_eq_some (byte?_eq_some (b := column) (by omega)) ?_
      rw [mapPixel_eq, getElem_indexBytes _ hx, Vector.getElem_mapFinIdx, if_pos (by omega),
        hcolumn, hy]
    · rw [List.mem_range'_1] at hmem
      rw [getElem_indexBytes _ hx, getElem_indexBytes _ hx, Vector.getElem_mapFinIdx,
        if_neg (by omega)]
  · have htop : ¬(control.windowOn = true ∧ (bus.get .windowY).toNat ≤ line.toNat) := fun h ↦
      hon ⟨h.1, UInt8.le_iff_toNat_le.2 h.2⟩
    rw [if_neg hon, if_neg htop]
    rfl

/-- The shades of the layers below the sprites. -/
theorem paintShades_eq (palette : UInt8) (indices : IndexRow) (out : Row) :
    paintEach (fun x ↦ do shade palette (← get? (indexBytes indices) x)) (List.range screenWidth)
        out =
      some (indices.map (Shade.ofPalette palette)) := by
  refine paintEach_range_eq (fun x hx ↦ bind_eq_some (get?_eq_some _ hx) ?_) out
  rw [getElem_indexBytes _ hx, Vector.getElem_map, shade_eq]

/-! ## Sprites -/

section Sprites

variable {line : UInt8} {number : Nat}

/-- The byte with the attributes of a sprite. -/
def attributesAt (bus : SystemBus) (number : Nat) : UInt8 :=
  bus.peek (SystemBus.spriteTable + UInt16.ofNat (4 * number) + 3)

/-- Where the tile of a sprite starts. -/
def spriteTile (s : Sprite) : UInt16 := 0x8000 + 16 * s.tile.toUInt16

theorem toNat_spriteTile (s : Sprite) : (spriteTile s).toNat = 0x8000 + 16 * s.tile.toNat := by
  have htile := s.tile.toNat_lt
  rw [spriteTile, UInt16.toNat_add, UInt16.toNat_mul, UInt8.toNat_toUInt16]
  simp only [UInt16.reduceToNat]
  omega

/-- One column of a sprite, `row` being the row of its tile that is on the line. -/
theorem paintColumn_eq {row : UInt8} (hinside : row.toNat < 8)
    (hrow : row.toNat =
      if (spriteAt bus number).flipY then 7 - (line.toNat + 16 - (spriteAt bus number).y)
      else line.toNat + 16 - (spriteAt bus number).y)
    {column : Nat} (hcolumn : column < 8) (behind : IndexRow) (out : Row) :
    paintColumn (visible bus) (spriteTile (spriteAt bus number)) (spriteAt bus number).left row
        (attributesAt bus number) ((spriteAt bus number).palette bus) (indexBytes behind) out
        column =
      some ((spriteAt bus number).paintColumn bus line.toNat behind out column) := by
  have hx : (spriteAt bus number).x < 256 := UInt8.toNat_lt _
  have hmirrored : (attributesAt bus number).toNat.testBit 5 = (spriteAt bus number).flipX := rfl
  have hbehind :
      (attributesAt bus number).toNat.testBit 7 = (spriteAt bus number).behindBackground := rfl
  generalize spriteAt bus number = s at *
  have hwidth : screenWidth = 160 := rfl
  have hleft : s.left = s.x - 8 := rfl
  refine bind_eq_some (signed?_eq_some (by omega) (by omega)) ?_
  rw [Sprite.paintColumn]
  dsimp only
  by_cases hon : 8 ≤ s.x + column ∧ s.x + column - 8 < screenWidth
  · have hplace : s.left + column = (s.x + column - 8 : Nat) := by omega
    have htile := s.tile.toNat_lt
    have hstart := toNat_spriteTile s
    obtain ⟨source, hsource⟩ :=
      exists_byte (n := if s.flipX then 7 - column else column) (by split <;> omega)
    have hsource_lt : source.toNat < 8 := by
      rw [hsource]
      split <;> omega
    have hpixel : s.pixel bus line.toNat column =
        Scanline.tilePixel bus (spriteTile s) source.toNat row.toNat := by
      rw [hsource, hrow]
      rfl
    rw [if_neg (by omega), dif_pos hon, hplace, hmirrored, hbehind, hpixel]
    refine bind_eq_some (signed?_eq_some (by split <;> omega) (by split <;> omega)) ?_
    refine bind_eq_some (byte?_eq_some (b := source) ?_) ?_
    · rw [hsource]
      split <;> omega
    refine bind_eq_some (tilePixel_eq (by omega) (by omega) hsource_lt hinside) ?_
    refine bind_eq_some (get?_eq_some _ hon.2) ?_
    rw [getElem_indexBytes _ hon.2]
    simp only [ne_eq, indexByte_eq_zero_iff]
    split
    · rfl
    split
    · rfl
    exact bind_eq_some (shade_eq _ _) (set?_eq_some _ _ _)
  · rw [if_pos (by omega), dif_neg hon]
    rfl

/-- A loop goes through if each of its rounds does. -/
theorem foldlM_eq_some {β γ : Type} {round : γ → β → Option γ} {step : γ → β → γ} {l : List β}
    (h : ∀ c, ∀ b ∈ l, round c b = some (step c b)) (c : γ) :
    l.foldlM round c = some (l.foldl step c) := by
  induction l generalizing c with
  | nil => rfl
  | cons b l ih =>
    exact bind_eq_some (h c b List.mem_cons_self)
      (ih (fun c b hb ↦ h c b (List.mem_cons_of_mem _ hb)) _)

theorem paintRow_eq (honLine : (spriteAt bus number).onLine line.toNat = true) (behind : IndexRow)
    (out : Row) :
    paintRow (visible bus) (spriteAt bus number).tile (attributesAt bus number)
        (spriteAt bus number).left (line.toNat - (spriteAt bus number).top) (indexBytes behind)
        out =
      some ((spriteAt bus number).paint bus line.toNat behind out) := by
  have hrange := Sprite.onLine_iff.1 honLine
  have htop : (spriteAt bus number).top = (spriteAt bus number).y - 16 := rfl
  have htile := (spriteAt bus number).tile.toNat_lt
  have hstart := toNat_spriteTile (spriteAt bus number)
  have hmirrored : (attributesAt bus number).toNat.testBit 6 = (spriteAt bus number).flipY := rfl
  have hsecond :
      (attributesAt bus number).toNat.testBit 4 = (spriteAt bus number).secondPalette := rfl
  obtain ⟨offset, hoffset⟩ := exists_word (n := 16 * (spriteAt bus number).tile.toNat) (by omega)
  obtain ⟨row, hrow⟩ := exists_byte
    (n := if (spriteAt bus number).flipY then 7 - (line.toNat + 16 - (spriteAt bus number).y)
      else line.toNat + 16 - (spriteAt bus number).y) (by split <;> omega)
  have hinside : row.toNat < 8 := by
    rw [hrow]
    split <;> omega
  rw [Sprite.paint, if_pos honLine, paintRow, hmirrored, hsecond]
  refine bind_eq_some (signed?_eq_some (by split <;> omega) (by split <;> omega)) ?_
  refine bind_eq_some (byte?_eq_some (b := row) ?_) ?_
  · rw [hrow]
    split <;> omega
  refine bind_eq_some (b := (spriteAt bus number).palette bus) ?_ ?_
  · exact visible_register bus (by split <;> decide)
  refine bind_eq_some (word?_eq_some (w := offset) (by omega)) ?_
  refine bind_eq_some (word?_eq_some (w := spriteTile (spriteAt bus number)) (by omega)) ?_
  exact foldlM_eq_some (fun out column hcolumn ↦
    paintColumn_eq hinside hrow (List.mem_range.1 hcolumn) behind out) out

theorem paintSprite_eq (hnumber : number < spriteCount) (behind : IndexRow) (out : Row) :
    paintSprite (visible bus) line (indexBytes behind) out number =
      some ((spriteAt bus number).paint bus line.toNat behind out) := by
  have hcount : number < 40 := hnumber
  have hline := line.toNat_lt
  have htable : SystemBus.spriteTable.toNat = 0xFE00 := rfl
  have hentry := toNat_spriteEntry hnumber
  obtain ⟨offset, hoffset⟩ := exists_word (n := 4 * number) (by omega)
  -- the bytes of the entry after the first
  have hword (k : UInt16) (hk : k.toNat ≤ 3) :
      word? ((SystemBus.spriteTable + UInt16.ofNat (4 * number)).toNat + k.toNat) =
        some (SystemBus.spriteTable + UInt16.ofNat (4 * number) + k) :=
    word?_eq_some (by rw [UInt16.toNat_add, hentry]; omega)
  have hview (k : UInt16) (hk : k.toNat ≤ 3) :
      visible bus (SystemBus.spriteTable + UInt16.ofNat (4 * number) + k) =
        some (bus.peek (SystemBus.spriteTable + UInt16.ofNat (4 * number) + k)) :=
    visible_spriteTable bus (by rw [UInt16.toNat_add, hentry]; omega)
      (by rw [UInt16.toNat_add, hentry]; omega)
  have hy : (spriteAt bus number).y < 256 := UInt8.toNat_lt _
  have hx : (spriteAt bus number).x < 256 := UInt8.toNat_lt _
  have htop : signed? ((spriteAt bus number).y - 16) = some (spriteAt bus number).top :=
    signed?_eq_some (by omega) (by omega)
  have hleft : signed? ((spriteAt bus number).x - 8) = some (spriteAt bus number).left :=
    signed?_eq_some (by omega) (by omega)
  have hrow : signed? (line.toNat - (spriteAt bus number).top) =
      some (line.toNat - (spriteAt bus number).top) := by
    rw [Sprite.top]
    exact signed?_eq_some (by omega) (by omega)
  refine bind_eq_some (word?_eq_some (w := offset) (by omega)) ?_
  refine bind_eq_some
    (word?_eq_some (w := SystemBus.spriteTable + UInt16.ofNat (4 * number)) (by omega)) ?_
  refine bind_eq_some (visible_spriteTable bus (by omega) (by omega)) (bind_eq_some htop ?_)
  refine bind_eq_some (hword 1 (by decide)) (bind_eq_some (hview 1 (by decide)) ?_)
  refine bind_eq_some hleft ?_
  refine bind_eq_some (hword 2 (by decide)) (bind_eq_some (hview 2 (by decide)) ?_)
  refine bind_eq_some (hword 3 (by decide)) (bind_eq_some (hview 3 (by decide)) ?_)
  refine bind_eq_some hrow ?_
  by_cases honLine : (spriteAt bus number).onLine line.toNat = true
  · have hrange := Sprite.onLine_iff.1 honLine
    rw [if_pos (by omega)]
    exact paintRow_eq honLine behind out
  · have hrange := Sprite.onLine_iff.not.1 honLine
    rw [if_neg (by omega), Sprite.paint, if_neg honLine]
    rfl

/-- Sprites are painted from the last to the first. -/
theorem paintSprites_eq {n : Nat} (hn : n ≤ spriteCount) (behind : IndexRow) (out : Row) :
    (List.range n).reverse.foldlM (paintSprite (visible bus) line (indexBytes behind)) out =
      some (paintSprites bus line.toNat behind n out) := by
  induction n generalizing out with
  | zero => rfl
  | succ n ih =>
    rw [List.range_succ, List.reverse_append, List.reverse_singleton, List.singleton_append,
      List.foldlM_cons, paintSprites]
    exact bind_eq_some (paintSprite_eq (Nat.lt_of_succ_le hn) behind out)
      (ih (Nat.le_of_succ_le hn) _)

end Sprites

/-! ## The whole line -/

theorem render_eq (bus : SystemBus) (line : UInt8) (out : Row) :
    render (visible bus) bus.lcdControl line out = some (Scanline.render bus line.toNat) := by
  rw [Scanline.render]
  refine bind_eq_some (backgroundRow_eq line) (bind_eq_some (paintWindow_eq line _) ?_)
  refine bind_eq_some (visible_register bus (by decide)) (bind_eq_some (paintShades_eq _ _ out) ?_)
  split
  · split
    · rfl
    · exact bind_eq_some (paintSprites_eq (Nat.le_refl _) _ _) rfl
  · rfl

end Strict

/-! ## Two buses that look the same -/

/-- Two buses agree on all that a line may be drawn from, the control register being given. -/
structure LooksSame (bus bus' : SystemBus) : Prop where
  videoMemory : ∀ a, 0x8000 ≤ a → a ≤ 0x9FFF → bus'.peek a = bus.peek a
  spriteTable : ∀ a, 0xFE00 ≤ a → a ≤ 0xFE9F → bus'.peek a = bus.peek a
  get_eq : ∀ r ∈ drawingRegisters, bus'.get r = bus.get r

theorem LooksSame.visible_eq {bus bus' : SystemBus} (h : LooksSame bus bus') :
    visible bus' = visible bus := by
  funext a
  rw [visible, visible]
  split
  · rename_i hvisible
    obtain ⟨hlow, hhigh⟩ | ⟨hlow, hhigh⟩ | ⟨r, hr, rfl⟩ := hvisible
    · rw [h.videoMemory a hlow hhigh]
    · rw [h.spriteTable a hlow hhigh]
    · exact congrArg some (h.get_eq r hr)
  · rfl

/-- A change elsewhere is not seen. -/
theorem looksSame_poke (bus : SystemBus) {a : UInt16} (h : ¬IsVisible a) (v : UInt8) :
    LooksSame bus (bus.poke a v) where
  videoMemory _ hlow hhigh :=
    SystemBus.peek_poke_of_ne bus v fun e ↦ h (e ▸ Or.inl ⟨hlow, hhigh⟩)
  spriteTable _ hlow hhigh :=
    SystemBus.peek_poke_of_ne bus v fun e ↦ h (e ▸ Or.inr (Or.inl ⟨hlow, hhigh⟩))
  get_eq r hr :=
    SystemBus.peek_poke_of_ne bus v fun e ↦ h (e ▸ Or.inr (Or.inr ⟨r, hr, rfl⟩))

/-- **A line is drawn from what can be seen, within the numbers there are.**  Let the control register
have any value.  The strict painter draws every line on every bus, and draws what `render` draws,
whatever was in the row before.  So two buses that look the same give the same answer and the same
pixels. -/
theorem render_visible (control line : UInt8) :
    (∀ bus out, Strict.render (visible bus) (.ofByte control) line out =
        some (render (bus.set .lcdControl control) line.toNat)) ∧
      ∀ bus bus', LooksSame bus bus' →
        render (bus'.set .lcdControl control) line.toNat =
          render (bus.set .lcdControl control) line.toNat := by
  have hstrict (bus : SystemBus) (out : Row) :
      Strict.render (visible bus) (.ofByte control) line out =
        some (render (bus.set .lcdControl control) line.toNat) := by
    have hunseen : LooksSame bus (bus.set .lcdControl control) :=
      looksSame_poke bus (by decide) control
    rw [← Strict.render_eq _ _ out, hunseen.visible_eq, SystemBus.lcdControl,
      SystemBus.get_set_self]
  refine ⟨hstrict, fun bus bus' h ↦ Option.some.inj ?_⟩
  rw [← hstrict bus' default, ← hstrict bus default, h.visible_eq]

/-- A byte of work RAM is not seen, and the pixel in the corner is black with it as without. -/
theorem render_visible_workRam :
    LooksSame cornerSprite (cornerSprite.poke 0xC000 1) ∧
      (cornerSprite.poke 0xC000 1).peek 0xC000 ≠ cornerSprite.peek 0xC000 ∧
      (render ((cornerSprite.poke 0xC000 1).set .lcdControl 0x82) 0).state[0] = .black := by
  have hlooks := looksSame_poke cornerSprite (a := 0xC000) (by decide) 1
  have hcontrol : cornerSprite.get .lcdControl = 0x82 := by
    simp [SystemBus.get, cornerSprite, SystemBus.set, SystemBus.peek_poke, IoRegister.address]
  have hsame := (render_visible 0x82 0).2 _ _ hlooks
  rw [← hcontrol, SystemBus.set_get_self, hcontrol] at hsame
  refine ⟨hlooks, ?_, ?_⟩
  · simp [cornerSprite, SystemBus.set, SystemBus.peek_poke, IoRegister.address,
      SystemBus.isBlank_blank.peek_eq]
  · rw [UInt8.toNat_zero] at hsame
    rw [hsame]
    exact (getElem_render control_cornerSprite.1 (by decide)).trans pixel_cornerSprite

end Scanline
end Handheld
