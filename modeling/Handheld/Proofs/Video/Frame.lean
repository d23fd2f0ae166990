import Handheld.Proofs.Video.Beam
import Handheld.Proofs.Video.Sources

/-!
# What is on the screen after a tick

A row of the screen changes when the beam gets to the end of the drawing of its line, and at no other
time; it is then what drawing the line gives.  So after a tick of `n` dots a row is a drawing of its
line from the memory there was, if the screen is on and the beam has been to that place in the `n`
dots, and what it was before if not (`Scan.rows_of_tick`).

`Scan.Swept` says what a tick does to the beam, to the frames begun and to the rows.  It holds of
one chunk (`Scan.Coherent.swept_chunk`), and one stretch after the other is one stretch
(`Scan.Swept.trans`): the picture unit writes registers in the meantime, but none that a line is drawn
from.  The rest is induction over the chunks of a tick.
-/

set_option autoImplicit false

namespace Handheld

/-! ## Rows -/

/-- What becomes of a row: it is a drawing of its line, if there is one, or else what it was. -/
structure RowAfter (isDrawn : Prop) (bus : SystemBus) (y : Fin screenHeight)
    (before after : Screen) : Prop where
  drawn_eq : isDrawn → Scanline.render bus y = ⟨.ok (), after.row y⟩
  kept_eq : ¬isDrawn → after.row y = before.row y

namespace RowAfter

variable {p q : Prop} {bus bus' : SystemBus} {y : Fin screenHeight} {a b c : Screen}

theorem congr (h : RowAfter p bus y a b) (hpq : q ↔ p) : RowAfter q bus y a b :=
  ⟨fun hq ↦ h.drawn_eq (hpq.1 hq), fun hq ↦ h.kept_eq (mt hpq.2 hq)⟩

/-- What the drawing is made from may be another bus that gives the same. -/
theorem ofBus (h : RowAfter p bus y a b)
    (hbus : Scanline.render bus y = Scanline.render bus' y) : RowAfter p bus' y a b :=
  ⟨fun hp ↦ hbus ▸ h.drawn_eq hp, h.kept_eq⟩

/-- The last drawing counts, and it is the same as any before it. -/
theorem trans (h : RowAfter p bus y a b) (h' : RowAfter q bus y b c) :
    RowAfter (p ∨ q) bus y a c where
  drawn_eq hpq := by
    by_cases hq : q
    · exact h'.drawn_eq hq
    · rw [h'.kept_eq hq]
      exact h.drawn_eq (hpq.resolve_right hq)
  kept_eq hpq := (h'.kept_eq fun hq ↦ hpq (Or.inr hq)).trans (h.kept_eq fun hp ↦ hpq (Or.inl hp))

end RowAfter

namespace Scan

variable {s s' s'' : Scan} {m n : Nat}

/-! ## One change of mode -/

theorem drawLine_row (h : s.drawLine.answer = .ok ()) (y : Fin screenHeight) :
    RowAfter (s.bus.lcdControl.screenOn = true ∧ s.ppu.line = y) s.bus y s.ppu.screen
      s.drawLine.state.ppu.screen := by
  rw [drawLine] at h ⊢
  by_cases hline : s.ppu.line < screenHeight
  · rw [dif_pos hline] at h ⊢
    by_cases hon : s.bus.lcdControl.screenOn = true
    · rw [if_pos hon] at h ⊢
      by_cases hy : s.ppu.line = y
      · obtain rfl : y = ⟨s.ppu.line, hline⟩ := Fin.ext hy.symm
        refine ⟨fun _ ↦ ?_, fun hno ↦ absurd ⟨hon, rfl⟩ hno⟩
        rw [Screen.row_setRow, if_pos rfl]
        exact Outcome.eq_ok_of_answer h
      · refine ⟨fun hdrawn ↦ absurd hdrawn.2 hy, fun _ ↦ ?_⟩
        rw [Screen.row_setRow, if_neg fun e ↦ hy (congrArg Fin.val e).symm]
    · rw [if_neg hon]
      exact ⟨fun hdrawn ↦ absurd hdrawn.1 hon, fun _ ↦ rfl⟩
  · rw [dif_neg hline]
    exact ⟨fun hdrawn ↦ absurd (hdrawn.2 ▸ y.isLt) hline, fun _ ↦ rfl⟩

/-- A row is drawn when the beam enters the rest of its line. -/
theorem updateMode_row (h : s.updateMode.answer = .ok ()) (y : Fin screenHeight) :
    RowAfter (s.bus.lcdControl.screenOn = true ∧ s.Enters .hBlank ∧ s.ppu.line = y) s.bus y
      s.ppu.screen s.updateMode.state.ppu.screen := by
  rw [updateMode_eq] at h ⊢
  dsimp only at h ⊢
  by_cases hdraw : s.Enters .hBlank
  · rw [if_pos hdraw] at h ⊢
    exact (drawLine_row h y).congr ⟨fun hp ↦ ⟨hp.1, hp.2.2⟩, fun hp ↦ ⟨hp.1, hdraw, hp.2⟩⟩
  · rw [if_neg hdraw]
    refine ⟨fun hp ↦ absurd hp.2.1 hdraw, fun _ ↦ ?_⟩
    split <;> rfl

/-- A frame begins when the beam enters the lines that are not visible. -/
theorem updateMode_frameCount (s : Scan) :
    s.updateMode.state.ppu.frameCount =
      s.ppu.frameCount + if s.Enters .vBlank then 1 else 0 := by
  obtain ⟨screen, hstate⟩ := updateMode_state s
  rw [hstate]

/-- A change of mode leaves the beam where the chunk has moved it, whether it succeeds or not. -/
theorem Coherent.movedOn_updateMode (h : s.Coherent) (hle : n ≤ dotsToBoundary s.ppu.dot) :
    MovedOn s n (s.advance n).updateMode.state := by
  obtain ⟨hdot, hline, hmode⟩ := updateMode_position (s.advance n)
  obtain ⟨hdot_lt, hline_lt⟩ := advance_position s n h.line_lt
  refine ⟨⟨hdot ▸ hdot_lt, hline ▸ hline_lt, by rw [hmode, hdot, hline]⟩, ?_, ?_⟩
  · rw [← h.position_advance hle, position, position, hdot, hline]
  · have hcount : (s.advance n).ppu.frameCount = s.ppu.frameCount := by
      rw [advance_ppu]
    rw [h.framesBegun_add hle, updateMode_frameCount, hcount]
    omega

/-! ## One chunk -/

/-- What a stretch of `n` dots does, if it succeeds. -/
structure Swept (s : Scan) (n : Nat) (s' : Scan) : Prop where
  coherent : s'.Coherent
  position_eq : s'.position = (s.position + n) % frameDots
  frames_eq : s'.ppu.frameCount + framesBegun s.position =
    s.ppu.frameCount + framesBegun (s.position + n)
  changes : s.bus.ChangesOnly (.interruptFlag :: Ppu.registers) s'.bus
  rows : ∀ y : Fin screenHeight,
    RowAfter (s.bus.lcdControl.screenOn = true ∧ Passes s.position n (endOfDrawing y)) s.bus y
      s.ppu.screen s'.ppu.screen

/-- What it does to the beam, the rows apart. -/
theorem Swept.movedOn (h : Swept s n s') : MovedOn s n s' :=
  ⟨h.coherent, h.position_eq, h.frames_eq⟩

/-- What a picture unit writes does not matter for what it draws. -/
theorem Swept.render_eq (h : Swept s n s') (y : Fin screenHeight) :
    Scanline.render s'.bus y = Scanline.render s.bus y :=
  Scanline.render_congr (h.changes.sameSources (by decide))
    (Nat.lt_of_lt_of_le y.isLt (by decide))

/-- The beam gets nowhere, and nothing happens. -/
theorem Coherent.swept_zero (h : s.Coherent) : Swept s 0 s where
  coherent := h
  position_eq := (Nat.mod_eq_of_lt h.position_lt).symm
  frames_eq := rfl
  changes := .refl _ _
  rows _ := ⟨fun hdrawn ↦ absurd hdrawn.2 (not_passes_zero _ _), fun _ ↦ rfl⟩

theorem chunk_eq_ok (hs : s.chunk n = ⟨.ok (), s'⟩) :
    (s.advance n).updateMode.answer = .ok () ∧
      s' = (s.advance n).updateMode.state.updateStatus := by
  rw [chunk] at hs
  split at hs
  · cases hs
    exact ⟨‹_›, rfl⟩
  · cases hs

theorem Coherent.swept_chunk (h : s.Coherent) (hle : n ≤ dotsToBoundary s.ppu.dot)
    (hs : s.chunk n = ⟨.ok (), s'⟩) : Swept s n s' := by
  have hadvance := advance_changesOnly s n
  have hchunk := chunk_changesOnly s n
  rw [hs] at hchunk
  obtain ⟨hok, rfl⟩ := chunk_eq_ok hs
  obtain ⟨hcoherent, hposition, hframes⟩ := (h.movedOn_updateMode hle).updateStatus
  refine ⟨hcoherent, hposition, hframes, hchunk, fun y ↦ ?_⟩
  -- the line is drawn from the bus on which the line register has been written already
  have hrow := updateMode_row hok y
  have hscreen : (s.advance n).ppu.screen = s.ppu.screen := by
    rw [advance_ppu]
  rw [hadvance.lcdControl_eq (by decide), hscreen] at hrow
  refine (hrow.congr ?_).ofBus ?_
  · rw [h.enters_hBlank_iff hle y.isLt]
  · exact Scanline.render_congr (hadvance.sameSources (by decide))
      (Nat.lt_of_lt_of_le y.isLt (by decide))

/-- **One stretch after the other is one stretch.** -/
theorem Swept.trans (h : Swept s m s') (h' : Swept s' n s'') : Swept s (m + n) s'' where
  coherent := h'.coherent
  position_eq := (h.movedOn.trans h'.movedOn).position_eq
  frames_eq := (h.movedOn.trans h'.movedOn).frames_eq
  changes := h.changes.trans h'.changes
  rows y := by
    -- the second stretch draws from what the first has left, which makes no difference
    have hlater := h'.rows y
    rw [h.changes.lcdControl_eq (by decide), h.position_eq] at hlater
    refine ((h.rows y).trans (hlater.ofBus (h.render_eq y))).congr ?_
    rw [passes_add]
    exact and_or_left

/-- **What a tick does**, by induction over its chunks. -/
theorem Coherent.swept_tick (h : s.Coherent) (hs : s.tick n = ⟨.ok (), s'⟩) : Swept s n s' := by
  induction s, n using tick_induction with
  | zero s =>
    rw [tick_zero] at hs
    cases hs
    exact h.swept_zero
  | chunk s n hn ih =>
    rw [tick_eq_chunk hn] at hs
    obtain ⟨_, s₁, hchunk, hrest⟩ := Outcome.andThen_eq_ok.1 hs
    have hfirst := h.swept_chunk (Nat.min_le_right _ _) hchunk
    have hboth := hfirst.trans (ih s₁ hfirst.coherent hrest)
    rwa [Nat.add_sub_cancel' (Nat.min_le_left _ _)] at hboth

/-! ## The screen after a tick -/

/-- **What is on the screen after a tick.**  From any place in the frame, after a tick of `n` dots that
succeeds, each row is a drawing of its line from memory as it was and still is, if the screen is on
and the beam has got to the end of the drawing of that line in the `n` dots; and if not, the row is
what it was.  So after a whole frame, with the screen on, the whole screen is drawn anew, the beam is
where it was, and one more frame has begun. -/
theorem rows_of_tick (h : s.Coherent) (hs : s.tick n = ⟨.ok (), s'⟩) :
    (∀ y : Fin screenHeight,
        RowAfter (s.bus.lcdControl.screenOn = true ∧ Passes s.position n (endOfDrawing y)) s.bus y
            s.ppu.screen s'.ppu.screen ∧
          Scanline.render s'.bus y = Scanline.render s.bus y) ∧
      s'.Coherent ∧ s'.position = (s.position + n) % frameDots ∧
      (n = frameDots →
        (s.bus.lcdControl.screenOn = true →
            ∀ y : Fin screenHeight, Scanline.render s.bus y = ⟨.ok (), s'.ppu.screen.row y⟩) ∧
          s'.ppu.line = s.ppu.line ∧ s'.ppu.dot = s.ppu.dot ∧
          s'.ppu.frameCount = s.ppu.frameCount + 1) := by
  have hswept := h.swept_tick hs
  refine ⟨fun y ↦ ⟨hswept.rows y, hswept.render_eq y⟩, hswept.coherent, hswept.position_eq, ?_⟩
  rintro rfl
  have hplace : s'.position = s.position := by
    rw [hswept.position_eq, Nat.add_mod_right, Nat.mod_eq_of_lt h.position_lt]
  obtain ⟨hline, hdot⟩ := h.position_inj hswept.coherent hplace
  refine ⟨fun hon y ↦ (hswept.rows y).drawn_eq ⟨hon, ?_⟩, hline, hdot, ?_⟩
  · exact passes_frame _ (endOfDrawing_lt y.isLt)
  have hframes := hswept.frames_eq
  simp only [framesBegun, frameDots, lineDots, frameLines] at hframes
  omega

/-- After a frame with the sprite in the corner, the first pixel is black. -/
theorem rows_of_tick_cornerSprite :
    ∃ s', Scan.tick ⟨{}, Scanline.cornerSprite⟩ frameDots = ⟨.ok (), s'⟩ ∧
      s'.ppu.line = 0 ∧ s'.ppu.dot = 0 ∧ s'.ppu.frameCount = 1 ∧
      (s'.ppu.screen.row ⟨0, by decide⟩)[0] = .black := by
  obtain ⟨hsmall, hon⟩ := Scanline.control_cornerSprite
  have hok := tick_eq_ok (s := ⟨{}, Scanline.cornerSprite⟩) hsmall frameDots
  obtain ⟨-, -, -, hframe⟩ :=
    rows_of_tick (s := ⟨{}, Scanline.cornerSprite⟩) ⟨by decide, by decide, rfl⟩ hok
  obtain ⟨hrows, hline, hdot, hcount⟩ := hframe rfl
  refine ⟨_, hok, hline, hdot, hcount, ?_⟩
  have hpixel : (Scanline.render Scanline.cornerSprite 0).state[0] = .black :=
    (Scanline.getElem_render hsmall (by decide)).trans Scanline.pixel_cornerSprite
  rw [hrows hon ⟨0, by decide⟩] at hpixel
  exact hpixel

end Scan
end Handheld
