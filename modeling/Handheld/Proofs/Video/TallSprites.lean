import Handheld.Proofs.Machine.Devices

/-!
# When drawing fails

There is one thing that the picture unit cannot draw: sprites of double height.  A bus that does not
select them while sprites are on is one on which every tick succeeds (`Scan.tick_eq_ok`), since
nothing that the picture unit does changes the selection.
-/

set_option autoImplicit false

namespace Handheld

/-- Sprites are on, and they are to be of double height. -/
def LcdControl.TallSprites (control : LcdControl) : Prop :=
  control.spritesOn = true ∧ control.spritesTall = true

instance (control : LcdControl) : Decidable control.TallSprites :=
  inferInstanceAs (Decidable (_ ∧ _))

theorem SystemBus.ChangesOnly.lcdControl_eq {registers : List IoRegister} {bus bus' : SystemBus}
    (h : bus.ChangesOnly registers bus') (hr : .lcdControl ∉ registers) :
    bus'.lcdControl = bus.lcdControl := by
  rw [lcdControl, lcdControl, h.get_eq hr]

/-- Drawing a line fails with tall sprites, and with these only. -/
theorem Scanline.render_answer (bus : SystemBus) (line : Nat) :
    (render bus line).answer =
      if bus.lcdControl.TallSprites then .error .unsupportedSpriteSize else .ok () := by
  rw [render]
  by_cases hon : bus.lcdControl.spritesOn <;> by_cases htall : bus.lcdControl.spritesTall <;>
    simp [hon, htall, LcdControl.TallSprites]

namespace Scan

variable {s : Scan}

theorem drawLine_answer (h : ¬s.bus.lcdControl.TallSprites) : s.drawLine.answer = .ok () := by
  rw [drawLine]
  split
  · split
    · dsimp only
      rw [Scanline.render_answer, if_neg h]
    · rfl
  · rfl

theorem chunk_answer (h : ¬s.bus.lcdControl.TallSprites) (dots : Nat) :
    (s.chunk dots).answer = .ok () := by
  have hmoved : (s.advance dots).updateMode.answer = .ok () := by
    rw [updateMode]
    dsimp only
    split
    · rfl
    · split
      · refine drawLine_answer ?_
        rw [(advance_changesOnly s dots).lcdControl_eq (by decide)]
        exact h
      · rfl
      · rfl
      · rfl
  rw [chunk, hmoved]

/-- **Without tall sprites every tick succeeds.** -/
theorem tick_eq_ok (h : ¬s.bus.lcdControl.TallSprites) (dots : Nat) :
    s.tick dots = ⟨.ok (), (s.tick dots).state⟩ := by
  refine Outcome.eq_ok_of_answer ?_
  induction s, dots using tick_induction with
  | zero s => rw [tick_zero]
  | chunk s dots hdots ih =>
    have hok := Outcome.eq_ok_of_answer (chunk_answer h (min dots (dotsToBoundary s.ppu.dot)))
    have hsame := (chunk_changesOnly s (min dots (dotsToBoundary s.ppu.dot))).lcdControl_eq
      (by decide)
    rw [tick_eq_chunk hdots, hok, Outcome.andThen_ok]
    exact ih _ (by rw [hsame]; exact h)

end Scan
end Handheld
