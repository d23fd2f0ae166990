import Handheld.Proofs.Video.Frame

/-!
# When a picture is complete

A picture is complete when the beam has drawn the last visible line and enters the lines that are
not visible.  `Scan.pictures` are the screens at the moments of a tick at which it does, found by
looking at the unit after every dot.

Nothing is drawn shortly before such a moment, and nothing for a long while after it: the last line is
drawn 206 dots before, the first one of the next frame 4810 dots after (`not_passes_before`,
`not_passes_behind`).  So in a tick that is not longer than a step of the machine there is one picture
at most; and if there is one, it is what is still on the screen when the tick is over
(`Scan.Coherent.pictures_eq`).
-/

set_option autoImplicit false

namespace Handheld

/-! ## Far from drawing -/

/-- No line is drawn in a short stretch in which a frame begins. -/
theorem not_passes_before {p n : Nat} (hn : n ≤ 204)
    (hbegun : Scan.framesBegun (p + n) ≠ Scan.framesBegun p) (y : Fin screenHeight) :
    ¬Passes p n (endOfDrawing y) := by
  rintro ⟨k, hpos, hle, hplace⟩
  have hy := y.isLt
  simp only [Scan.framesBegun, Scan.blankDots, endOfDrawing, frameDots, lineDots, frameLines,
    screenHeight, drawEnd] at *
  omega

/-- Nor for a while after a frame has begun. -/
theorem not_passes_behind {p m n : Nat} (hn : m + n < 4810)
    (hbegun : Scan.framesBegun (p + m) ≠ Scan.framesBegun p) (y : Fin screenHeight) :
    ¬Passes ((p + m) % frameDots) n (endOfDrawing y) := by
  rintro ⟨k, hpos, hle, hplace⟩
  have hy := y.isLt
  simp only [Scan.framesBegun, Scan.blankDots, endOfDrawing, frameDots, lineDots, frameLines,
    screenHeight, drawEnd] at *
  omega

theorem Screen.ext_row {s t : Screen} (h : ∀ y, s.row y = t.row y) : s = t := by
  obtain ⟨rows⟩ := s
  obtain ⟨rows'⟩ := t
  exact congrArg Screen.mk (Vector.ext fun y hy ↦ h ⟨y, hy⟩)

namespace Scan

variable {s s' : Scan} {k n : Nat}

/-- If no line is drawn, the screen stays. -/
theorem Swept.screen_eq (h : Swept s n s')
    (hno : ∀ y : Fin screenHeight, ¬Passes s.position n (endOfDrawing y)) :
    s'.ppu.screen = s.ppu.screen :=
  Screen.ext_row fun y ↦ (h.rows y).kept_eq fun hdrawn ↦ hno y hdrawn.2

/-- A chunk that does not reach the boundary succeeds. -/
theorem Coherent.chunk_of_lt (h : s.Coherent) (hlt : k < dotsToBoundary s.ppu.dot) :
    s.chunk k = ⟨.ok (), (s.advance k).updateStatus⟩ := by
  have hle := dotsToBoundary_le h.dot_lt
  have hsame : (s.advance k).updateMode = ⟨.ok (), s.advance k⟩ := by
    rw [advance_of_lt (by omega), updateMode]
    dsimp only
    rw [ofPosition_add_of_lt hlt, if_pos h.mode_eq.symm]
  rw [chunk, hsame]

/-- A tick that succeeds has succeeded up to each of its dots. -/
theorem Coherent.tick_of_le (h : s.Coherent) (hs : s.tick n = ⟨.ok (), s'⟩) (hle : k ≤ n) :
    ∃ s₁, s.tick k = ⟨.ok (), s₁⟩ := by
  induction s, n using tick_induction generalizing k with
  | zero s => exact ⟨s', by rw [Nat.le_zero.1 hle, hs]⟩
  | chunk s n hn ih =>
    by_cases hk : k = 0
    · exact ⟨s, by rw [hk, tick_zero]⟩
    · rcases Nat.lt_or_ge k (dotsToBoundary s.ppu.dot) with hlt | hge
      · rw [tick_eq_chunk hk, Nat.min_eq_left (Nat.le_of_lt hlt), h.chunk_of_lt hlt,
          Outcome.andThen_ok, Nat.sub_self, tick_zero]
        exact ⟨_, rfl⟩
      · rw [tick_eq_chunk hn] at hs
        obtain ⟨_, s₁, hchunk, hrest⟩ := Outcome.andThen_eq_ok.1 hs
        have hnext := (h.swept_chunk (Nat.min_le_right _ _) hchunk).coherent
        obtain ⟨s₂, hs₂⟩ := ih s₁ hnext hrest (Nat.sub_le_sub_right hle _)
        rw [Nat.min_eq_right (Nat.le_trans hge hle)] at hchunk hs₂
        refine ⟨s₂, ?_⟩
        rw [tick_eq_chunk hk, Nat.min_eq_right hge, hchunk, Outcome.andThen_ok, hs₂]

/-- The pictures that are complete in the first `n` dots of a tick: the screen at each dot at which
the unit enters the vertical blank. -/
def pictures (s : Scan) : Nat → List Screen
  | 0 => []
  | n + 1 =>
    let before := (s.tick n).state.ppu
    let now := (s.tick (n + 1)).state.ppu
    s.pictures n ++ if before.mode ≠ .vBlank ∧ now.mode = .vBlank then [now.screen] else []

/-- The unit is in the vertical blank when the beam is behind the visible lines. -/
theorem Coherent.mode_eq_vBlank_iff (h : s.Coherent) :
    s.ppu.mode = .vBlank ↔ lineDots * screenHeight ≤ s.position := by
  have hdot := h.dot_lt
  rw [h.mode_eq, ofPosition_eq_vBlank_iff]
  simp only [position, lineDots] at *
  omega

/-- It enters it with the dot with which a frame begins. -/
theorem Coherent.enters_vBlank_iff (h : s.Coherent) {s₁ : Scan}
    (hs : s.tick n = ⟨.ok (), s₁⟩) (hs' : s.tick (n + 1) = ⟨.ok (), s'⟩) :
    s₁.ppu.mode ≠ .vBlank ∧ s'.ppu.mode = .vBlank ↔
      framesBegun (s.position + (n + 1)) ≠ framesBegun (s.position + n) := by
  have hfirst := h.swept_tick hs
  have hsecond := h.swept_tick hs'
  rw [Ne, hfirst.coherent.mode_eq_vBlank_iff, hsecond.coherent.mode_eq_vBlank_iff,
    hfirst.position_eq, hsecond.position_eq]
  simp only [framesBegun, blankDots, frameDots, lineDots, frameLines, screenHeight]
  omega

/-- A frame has begun if the count says so. -/
theorem Swept.frameCount_eq_iff (h : Swept s n s') :
    s'.ppu.frameCount = s.ppu.frameCount ↔ framesBegun (s.position + n) = framesBegun s.position := by
  have hframes := h.frames_eq
  omega

/-- No two frames begin within less than a frame. -/
theorem framesBegun_eq_of_ne {p m : Nat} (hlt : m + n < frameDots)
    (hbegun : framesBegun (p + m) ≠ framesBegun p) :
    framesBegun (p + (m + n)) = framesBegun (p + m) := by
  simp only [framesBegun, frameDots, lineDots, frameLines] at *
  omega

/-- **In a tick that is not too long there is one picture at most**, and it is still on the screen at
the end. -/
theorem Coherent.pictures_eq (h : s.Coherent) (hs : s.tick n = ⟨.ok (), s'⟩) (hn : n ≤ 204) :
    s.pictures n =
      if s'.ppu.frameCount = s.ppu.frameCount then [] else [s'.ppu.screen] := by
  induction n generalizing s' with
  | zero =>
    rw [tick_zero] at hs
    cases hs
    rw [pictures, if_pos rfl]
  | succ n ih =>
    obtain ⟨s₁, hs₁⟩ := h.tick_of_le hs (Nat.le_succ n)
    have hfirst := h.swept_tick hs₁
    have hboth := h.swept_tick hs
    have henters := h.enters_vBlank_iff hs₁ hs
    rw [pictures, ih hs₁ (Nat.le_of_succ_le hn), hs₁, hs]
    simp only [henters, hfirst.frameCount_eq_iff, hboth.frameCount_eq_iff]
    by_cases hbegun : framesBegun (s.position + n) = framesBegun s.position
    · rw [if_pos hbegun, List.nil_append, hbegun]
      exact ite_not _ _ _
    · -- the frame has begun before the last dot, which does not draw
      have hone : framesBegun (s.position + (n + 1)) = framesBegun (s.position + n) :=
        framesBegun_eq_of_ne (Nat.lt_of_le_of_lt hn (by decide)) hbegun
      have hstays : s₁.ppu.screen = s'.ppu.screen := by
        rw [hfirst.screen_eq (not_passes_before (Nat.le_of_succ_le hn) hbegun),
          hboth.screen_eq (not_passes_before hn (hone ▸ hbegun))]
      rw [if_neg hbegun, if_neg (fun hno ↦ hno hone), if_neg (hone ▸ hbegun), List.append_nil,
        hstays]

end Scan
end Handheld
