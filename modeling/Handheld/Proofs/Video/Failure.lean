import Handheld.Proofs.Video.Frame

/-!
# When a tick fails, and what it leaves

A tick fails where a line cannot be drawn.  That needs the screen to be on and tall sprites to be
selected, and it is when the beam gets to the end of the drawing of a visible line.  A tick that
passes no such place succeeds, and one that gets to one stops there: the first failure ends it.  So
there is one distance that decides, that to the next end of drawing, and it does not matter how long
the tick would have been (`Scan.tick_fails_iff`).

`Scan.Failed` says what a failing stretch leaves.  It is established by the chunk that fails
(`Scan.Coherent.failed_chunk`), and what succeeds before it can be put in front
(`Scan.Swept.thenFailed`), which is the induction over the chunks of a tick.
-/

set_option autoImplicit false

namespace Handheld

/-- The places where the drawing of a visible line ends. -/
def endsOfDrawing : Set Nat := {place | ∃ y : Fin screenHeight, endOfDrawing y = place}

namespace Scan

variable {s s' s'' : Scan} {m n : Nat} {e : MachineError}

/-- The screen is on and tall sprites are selected. -/
def Undrawable (s : Scan) : Prop :=
  s.bus.lcdControl.screenOn = true ∧ s.bus.lcdControl.TallSprites

/-- The picture unit does not change this. -/
theorem undrawable_congr
    (h : s.bus.ChangesOnly (.interruptFlag :: Ppu.registers) s'.bus) :
    s'.Undrawable ↔ s.Undrawable := by
  rw [Undrawable, h.lcdControl_eq (by decide), Undrawable]

/-! ## The chunk that fails -/

theorem drawLine_answer_eq_error :
    s.drawLine.answer = .error e ↔
      e = .unsupportedSpriteSize ∧ s.Undrawable ∧ s.ppu.line < screenHeight := by
  rw [drawLine, Undrawable]
  by_cases hline : s.ppu.line < screenHeight <;>
    by_cases hon : s.bus.lcdControl.screenOn = true <;>
    by_cases htall : s.bus.lcdControl.TallSprites <;>
    simp [hline, hon, htall, Scanline.render_answer, eq_comm]

/-- A line that fails to be drawn is the only row that changes. -/
theorem drawLine_row_of_ne {z : Fin screenHeight} (hz : s.ppu.line ≠ z) :
    s.drawLine.state.ppu.screen.row z = s.ppu.screen.row z := by
  rw [drawLine]
  split
  · split
    · rw [Screen.row_setRow, if_neg fun hsame ↦ hz (congrArg Fin.val hsame).symm]
    · rfl
  · rfl

/-- A change of mode fails at the end of the drawing of a line, if at all. -/
theorem updateMode_answer_eq_error :
    s.updateMode.answer = .error e ↔
      e = .unsupportedSpriteSize ∧ s.Undrawable ∧ s.Enters .hBlank := by
  rw [updateMode_eq]
  dsimp only
  by_cases henters : s.Enters .hBlank
  · have hline := (ofPosition_eq_hBlank_iff.1 henters.1).1
    rw [if_pos henters, drawLine_answer_eq_error]
    simp only [henters, hline, Undrawable]
  · rw [if_neg henters]
    simp only [henters, and_false, iff_false]
    split <;> nofun

/-- The other rows are then what they were. -/
theorem updateMode_row_of_ne (h : s.Enters .hBlank) (z : Fin screenHeight)
    (hz : s.ppu.line ≠ z) :
    s.updateMode.state.ppu.screen.row z = s.ppu.screen.row z := by
  rw [updateMode_eq]
  dsimp only
  rw [if_pos h]
  exact drawLine_row_of_ne hz

theorem chunk_eq_error (hs : s.chunk n = ⟨.error e, s'⟩) :
    (s.advance n).updateMode = ⟨.error e, s'⟩ := by
  rw [chunk] at hs
  rcases hmoved : (s.advance n).updateMode with ⟨e' | ⟨⟩, moved⟩ <;> rw [hmoved] at hs
  · exact hs
  · cases hs

/-- What `n` dots leave when they fail. -/
structure Failed (s : Scan) (n : Nat) (s' : Scan) : Prop extends MovedOn s n s' where
  /-- The failure is at the first place at which it can be. -/
  next : DotsToNext s.position endsOfDrawing n
  row_eq : ∀ z : Fin screenHeight, s'.ppu.line ≠ z →
    s'.ppu.screen.row z = s.ppu.screen.row z

/-- The end of the drawing of a line is at the end of a chunk that gets there. -/
theorem Coherent.dotsToNext_of_enters (h : s.Coherent) (hle : n ≤ dotsToBoundary s.ppu.dot)
    (henters : (s.advance n).Enters .hBlank) : DotsToNext s.position endsOfDrawing n := by
  have hline := h.line_lt
  obtain ⟨hend, hdraw⟩ := h.add_le hle
  have hbeam := advance_beam s n
  rw [Enters, mode_advance, h.mode_eq, ofPosition_eq_hBlank_iff, Ne, ofPosition_eq_hBlank_iff]
    at henters
  obtain ⟨⟨hvisible, hafter⟩, hbefore⟩ := henters
  simp only [lineDots, frameLines, screenHeight, drawEnd] at *
  constructor
  · refine ⟨by omega, ⟨(s.advance n).ppu.line, hvisible⟩, ?_⟩
    simp only [position, endOfDrawing, lineDots, drawEnd, frameDots, frameLines]
    omega
  · rintro k ⟨hpos, y, hplace⟩
    simp only [position, endOfDrawing, lineDots, drawEnd, frameDots, frameLines] at hplace
    omega

/-- **The chunk that fails.** -/
theorem Coherent.failed_chunk (h : s.Coherent) (hle : n ≤ dotsToBoundary s.ppu.dot)
    (hs : s.chunk n = ⟨.error e, s'⟩) :
    e = .unsupportedSpriteSize ∧ s.Undrawable ∧ Failed s n s' := by
  have hmoved := chunk_eq_error hs
  obtain ⟨rfl, hundrawable, henters⟩ :=
    updateMode_answer_eq_error.1 (congrArg Outcome.answer hmoved)
  have hbeam := h.movedOn_updateMode hle
  have hrows := updateMode_row_of_ne henters
  obtain ⟨-, hline, -⟩ := updateMode_position (s.advance n)
  rw [hmoved] at hbeam hrows hline
  refine ⟨rfl, (undrawable_congr (advance_changesOnly s n)).1 hundrawable, hbeam,
    h.dotsToNext_of_enters hle henters, fun z hz ↦ ?_⟩
  rw [hrows z (hline ▸ hz), advance_ppu]

/-! ## The tick that fails -/

/-- As long as ticks succeed where they would have to fail, they get to no such place. -/
theorem Swept.not_passes (h : Swept s n s') (hs : s.Undrawable) :
    ∀ place ∈ endsOfDrawing, ¬Passes s.position n place := by
  rintro _ ⟨y, rfl⟩ hpasses
  have hrender := congrArg Outcome.answer ((h.rows y).drawn_eq ⟨hs.1, hpasses⟩)
  rw [Scanline.render_answer, if_pos hs.2] at hrender
  cases hrender

/-- **A stretch that succeeds can be put in front of one that fails.** -/
theorem Swept.thenFailed (h : Swept s m s') (hs : s.Undrawable) (h' : Failed s' n s'') :
    Failed s (m + n) s'' where
  toMovedOn := h.movedOn.trans h'.toMovedOn
  next := .of_later (h.not_passes hs) (h.position_eq ▸ h'.next)
  row_eq z hz := by
    have hquiet : ¬Passes s.position m (endOfDrawing z) := h.not_passes hs _ ⟨z, rfl⟩
    rw [h'.row_eq z hz, (h.rows z).kept_eq fun hdrawn ↦ hquiet hdrawn.2]

/-- **What a tick leaves when it fails**, by induction over its chunks. -/
theorem Coherent.failed_tick (h : s.Coherent) (hs : s.tick n = ⟨.error e, s'⟩) :
    e = .unsupportedSpriteSize ∧ s.Undrawable ∧ ∃ d ≤ n, Failed s d s' := by
  induction s, n using tick_induction with
  | zero s =>
    rw [tick_zero] at hs
    cases hs
  | chunk s n hn ih =>
    have hle := Nat.min_le_left n (dotsToBoundary s.ppu.dot)
    rw [tick_eq_chunk hn] at hs
    rcases hchunk : s.chunk (min n (dotsToBoundary s.ppu.dot)) with ⟨e' | ⟨⟩, s₁⟩ <;>
      rw [hchunk] at hs
    · cases hs
      obtain ⟨he, hundrawable, hfailed⟩ := h.failed_chunk (Nat.min_le_right _ _) hchunk
      exact ⟨he, hundrawable, _, hle, hfailed⟩
    · have hswept := h.swept_chunk (Nat.min_le_right _ _) hchunk
      obtain ⟨he, hundrawable, d, hd, hfailed⟩ := ih s₁ hswept.coherent hs
      rw [undrawable_congr hswept.changes] at hundrawable
      exact ⟨he, hundrawable, _, by omega, hswept.thenFailed hundrawable hfailed⟩

/-- The position of a coherent unit says that it has just drawn a line. -/
theorem Coherent.eq_of_endOfDrawing (h : s.Coherent) {y : Fin screenHeight}
    (hplace : s.position = endOfDrawing y) :
    s.ppu.line = y ∧ s.ppu.dot = drawEnd ∧ s.ppu.mode = .hBlank := by
  have hdot := h.dot_lt
  have hat : s.ppu.line = y ∧ s.ppu.dot = drawEnd := by
    simp only [position, endOfDrawing, lineDots, drawEnd] at *
    omega
  refine ⟨hat.1, hat.2, ?_⟩
  rw [h.mode_eq, hat.1, hat.2, ofPosition_eq_hBlank_iff]
  exact ⟨y.isLt, Nat.le_refl _⟩

/-- **When a tick fails, and what it leaves.**  From any place in the frame, on any bus, there is a
next end of the drawing of a visible line, at most a frame away.  A tick fails exactly when the
screen is on, tall sprites are selected and the tick is long enough to get there, and there is no
other failure.  Then the beam stands at that place, resting; a frame has begun if the end of the
visible lines was on the way, and none if not; and no row but that of the line has changed. -/
theorem tick_fails_iff (h : s.Coherent) :
    ∃ (d : Nat) (y : Fin screenHeight),
      d ≤ frameDots ∧ DotsToNext s.position endsOfDrawing d ∧
      (s.position + d) % frameDots = endOfDrawing y ∧
      ∀ (n : Nat) (e : MachineError),
        ((s.tick n).answer = .error e ↔
            e = .unsupportedSpriteSize ∧ s.Undrawable ∧ d ≤ n) ∧
          ((s.tick n).answer = .error e →
            let after := (s.tick n).state.ppu
            after.line = y ∧ after.dot = drawEnd ∧ after.mode = .hBlank ∧
              (Passes s.position d blankStart → after.frameCount = s.ppu.frameCount + 1) ∧
              (¬Passes s.position d blankStart → after.frameCount = s.ppu.frameCount) ∧
              ∀ z ≠ y, after.screen.row z = s.ppu.screen.row z) := by
  have hsome : endOfDrawing 0 ∈ endsOfDrawing := ⟨⟨0, by decide⟩, rfl⟩
  obtain ⟨d, hnext⟩ := exists_dotsToNext s.position hsome (endOfDrawing_lt (by decide))
  obtain ⟨y, hy⟩ := hnext.1.2
  refine ⟨d, y, hnext.le_frameDots, hnext, hy.symm,
    fun n e ↦ ⟨⟨fun hanswer ↦ ?_, ?_⟩, fun hanswer ↦ ?_⟩⟩
  · obtain ⟨he, hundrawable, d', hle, hfailed⟩ :=
      h.failed_tick (Outcome.eq_error_of_answer hanswer)
    exact ⟨he, hundrawable, hnext.unique hfailed.next ▸ hle⟩
  · rintro ⟨rfl, hundrawable, hle⟩
    rcases htick : s.tick n with ⟨e | ⟨⟩, s'⟩
    · rw [(h.failed_tick htick).1]
    · obtain ⟨place, hmem, hpasses⟩ := hnext.passes_iff.2 hle
      exact absurd hpasses ((h.swept_tick htick).not_passes hundrawable place hmem)
  · obtain ⟨-, -, d', -, hfailed⟩ := h.failed_tick (Outcome.eq_error_of_answer hanswer)
    obtain rfl := hnext.unique hfailed.next
    generalize (s.tick n).state = s' at hfailed
    obtain ⟨hline, hdot, hmode⟩ :=
      hfailed.coherent.eq_of_endOfDrawing (hfailed.position_eq.trans hy.symm)
    refine ⟨hline, hdot, hmode, hfailed.frameCount_of_passes hnext.le_frameDots,
      hfailed.frameCount_of_not_passes, fun z hz ↦ ?_⟩
    exact hfailed.row_eq z fun hsame ↦ hz (Fin.ext (hsame.symm.trans hline))

/-- From the last visible line, already drawn, the next line to be drawn is the first of the next
frame, 4966 dots away. -/
theorem tick_fails_iff_nextFrame :
    let s : Scan :=
      ⟨{ line := 143, dot := 300, mode := .hBlank }, SystemBus.blank.set .lcdControl 0x86⟩
    s.Coherent ∧ s.Undrawable ∧ (s.tick 4965).answer = .ok () ∧
      (s.tick 4966).answer = .error .unsupportedSpriteSize ∧
      (s.tick 4966).state.ppu.line = 0 ∧ (s.tick 4966).state.ppu.dot = 250 ∧
      (s.tick 4966).state.ppu.frameCount = 1 := by
  intro s
  have h : s.Coherent := ⟨by decide, by decide, rfl⟩
  have hundrawable : s.Undrawable := by
    rw [Undrawable, SystemBus.lcdControl, SystemBus.get_set_self]
    decide
  obtain ⟨d, y, -, hnext, hplace, hfails⟩ := tick_fails_iff h
  have hposition : s.position = 65508 := rfl
  rw [hposition] at hnext hplace
  have hd : d = 4966 := by
    refine hnext.unique ⟨⟨by decide, ⟨0, by decide⟩, rfl⟩, ?_⟩
    rintro k ⟨-, z, hz⟩
    have hvisible : (z : Nat) < 144 := z.isLt
    simp only [endOfDrawing, lineDots, drawEnd, frameDots, frameLines] at hz
    omega
  subst hd
  have hy : (y : Nat) = 0 := by
    simp only [endOfDrawing, lineDots, drawEnd, frameDots, frameLines] at hplace
    omega
  have herror := (hfails 4966 .unsupportedSpriteSize).1.2 ⟨rfl, hundrawable, Nat.le_refl _⟩
  obtain ⟨hline, hdot, -, hcount, -⟩ := (hfails 4966 _).2 herror
  refine ⟨h, hundrawable, ?_, herror, hline.trans hy, hdot, hcount ⟨156, by decide⟩⟩
  rcases hshort : (s.tick 4965).answer with e | ⟨⟩
  · exact absurd ((hfails 4965 e).1.1 hshort).2.2 (by decide)
  · rfl

end Scan
end Handheld
