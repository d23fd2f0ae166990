import Handheld.Proofs.Video.Visible

/-!
# What a picture is made from

A line is drawn from video memory, from the sprite table, and from eight registers.  Two buses that
agree on these give the same line (`Scanline.render_congr`), whatever else they hold: they look the
same to a painter that sees nothing else.  In particular what the picture unit itself writes does not
matter for what it draws.
-/

set_option autoImplicit false

namespace Handheld

/-- The registers that a line is drawn from. -/
def pictureRegisters : List IoRegister :=
  [.lcdControl, .scrollY, .scrollX, .backgroundPalette, .spritePalette0, .spritePalette1, .windowY,
    .windowX]

/-- Two buses agree on all that a line is drawn from. -/
structure SameSources (bus bus' : SystemBus) : Prop where
  videoMemory : ∀ a < 0xA000, 0x8000 ≤ a → Scanline.byteAt bus' a = Scanline.byteAt bus a
  spriteTable : ∀ a < 0xFEA0, 0xFE00 ≤ a → bus'.peek a = bus.peek a
  get_eq : ∀ r ∈ pictureRegisters, bus'.get r = bus.get r

/-- Writing other registers changes no source. -/
theorem SystemBus.ChangesOnly.sameSources {registers : List IoRegister} {bus bus' : SystemBus}
    (h : bus.ChangesOnly registers bus') (hr : ∀ r ∈ pictureRegisters, r ∉ registers) :
    SameSources bus bus' where
  videoMemory a ha _ := h.peek_eq_of_lt (by
    rw [UInt16.lt_iff_toNat_lt, UInt16.toNat_ofNat']
    simp only [UInt16.reduceToNat]
    omega)
  spriteTable a ha _ := h.peek_eq_of_lt (by grind)
  get_eq r hmem := h.get_eq (hr r hmem)

theorem SameSources.lcdControl_eq {bus bus' : SystemBus} (h : SameSources bus bus') :
    bus'.lcdControl = bus.lcdControl := by
  rw [SystemBus.lcdControl, SystemBus.lcdControl, h.get_eq _ (by decide)]

theorem SameSources.looksSame {bus bus' : SystemBus} (h : SameSources bus bus') :
    Scanline.LooksSame bus bus' where
  videoMemory a hlow hhigh := by
    have hbyte := h.videoMemory a.toNat (Nat.lt_succ_of_le (UInt16.le_iff_toNat_le.1 hhigh))
      (UInt16.le_iff_toNat_le.1 hlow)
    rwa [Scanline.byteAt, Scanline.byteAt, UInt16.ofNat_toNat] at hbyte
  spriteTable a hlow hhigh := h.spriteTable a (by grind) hlow
  get_eq r hr := h.get_eq r (by revert r; decide)

/-- **A line is drawn from its sources, and from nothing else.** -/
theorem Scanline.render_congr {bus bus' : SystemBus} {line : Nat} (h : SameSources bus bus')
    (hline : line < 256) : render bus' line = render bus line := by
  obtain ⟨line, rfl⟩ := Strict.exists_byte hline
  refine Option.some.inj ?_
  rw [← Strict.render_eq bus' line default, ← Strict.render_eq bus line default, h.lcdControl_eq,
    h.looksSame.visible_eq]

end Handheld
