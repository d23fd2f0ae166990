import Handheld.Proofs.Video.DotByDot
import Mathlib.Order.Nat

/-!
# The beam in the frame

The place of the beam is one number, the dots since the frame began (`Scan.position`), and a tick
moves it on by as many dots as the tick has, round and round.  What happens at a place happens when
the beam gets there: `Passes p n place` says that it does so in the `n` dots after it was at `p`, and
`DotsToNext p places d` that the next of some places is `d` dots away.

A chunk ends at the latest where the mode may change, so the beam gets to such a place at the end of a
chunk or not at all.  `Scan.Coherent.enters_hBlank_iff` and `Scan.Coherent.framesBegun_add` say this
of the two changes that leave something behind: the end of the drawing of a line, and the end of the
visible lines.
-/

set_option autoImplicit false

namespace Handheld

/-! ## Places that are passed -/

/-- In the `n` dots after it has been at `p`, the beam gets to a place. -/
def Passes (p n place : Nat) : Prop := ∃ k, 0 < k ∧ k ≤ n ∧ (p + k) % frameDots = place

theorem not_passes_zero (p place : Nat) : ¬Passes p 0 place := fun ⟨_, hpos, hle, _⟩ ↦
  absurd hpos (Nat.not_lt.2 hle)

/-- What is passed in two stretches is passed in one of them. -/
theorem passes_add {p m n place : Nat} :
    Passes p (m + n) place ↔ Passes p m place ∨ Passes ((p + m) % frameDots) n place := by
  constructor
  · rintro ⟨k, hpos, hle, hk⟩
    rcases Nat.lt_or_ge m k with hlt | hge
    · refine Or.inr ⟨k - m, by omega, by omega, ?_⟩
      rw [Nat.mod_add_mod, ← hk]
      congr 1
      omega
    · exact Or.inl ⟨k, hpos, hge, hk⟩
  · rintro (⟨k, hpos, hle, hk⟩ | ⟨k, hpos, hle, hk⟩)
    · exact ⟨k, hpos, by omega, hk⟩
    · refine ⟨m + k, by omega, by omega, ?_⟩
      rw [← hk, Nat.mod_add_mod, Nat.add_assoc]

/-- In a whole frame the beam gets everywhere. -/
theorem passes_frame (p : Nat) {place : Nat} (h : place < frameDots) :
    Passes p frameDots place := by
  have hmod := Nat.mod_lt p (Nat.zero_lt_of_lt h)
  rcases Nat.lt_or_ge (p % frameDots) place with hlt | hge
  · refine ⟨place - p % frameDots, by omega, by omega, ?_⟩
    rw [← Nat.mod_add_mod, Nat.add_sub_cancel' (by omega), Nat.mod_eq_of_lt h]
  · refine ⟨place + frameDots - p % frameDots, by omega, by omega, ?_⟩
    rw [← Nat.mod_add_mod, Nat.add_sub_cancel' (by omega), Nat.add_mod_right,
      Nat.mod_eq_of_lt h]

/-- The beam, having been at `p`, gets to the next of some places in `d` dots. -/
def DotsToNext (p : Nat) (places : Set Nat) (d : Nat) : Prop :=
  IsLeast {k | 0 < k ∧ (p + k) % frameDots ∈ places} d

/-- There is a next place, since there is one. -/
theorem exists_dotsToNext (p : Nat) {places : Set Nat} {place : Nat} (hmem : place ∈ places)
    (hlt : place < frameDots) : ∃ d, DotsToNext p places d := by
  classical
  obtain ⟨k, hpos, -, rfl⟩ := passes_frame p hlt
  have hex : ∃ k, 0 < k ∧ (p + k) % frameDots ∈ places := ⟨k, hpos, hmem⟩
  exact ⟨Nat.find hex, Nat.isLeast_find hex⟩

namespace DotsToNext

variable {p m n d : Nat} {places : Set Nat}

theorem unique {d' : Nat} (h : DotsToNext p places d) (h' : DotsToNext p places d') : d = d' :=
  Nat.le_antisymm (h.2 h'.1) (h'.2 h.1)

/-- The next place is not more than a frame away. -/
theorem le_frameDots (h : DotsToNext p places d) : d ≤ frameDots := by
  obtain ⟨⟨-, hmem⟩, hleast⟩ := h
  refine Nat.le_of_not_lt fun hlt ↦ ?_
  have hless : d ≤ d - frameDots := hleast ⟨Nat.sub_pos_of_lt hlt, by
    rwa [← Nat.add_mod_right, Nat.add_assoc, Nat.sub_add_cancel (Nat.le_of_lt hlt)]⟩
  have hframe : 0 < frameDots := by decide
  omega

/-- One of the places is passed as soon as the tick is long enough. -/
theorem passes_iff (h : DotsToNext p places d) :
    (∃ place ∈ places, Passes p n place) ↔ d ≤ n := by
  constructor
  · rintro ⟨_, hmem, k, hpos, hle, rfl⟩
    exact Nat.le_trans (h.2 ⟨hpos, hmem⟩) hle
  · intro hle
    exact ⟨_, h.1.2, d, h.1.1, hle, rfl⟩

/-- So it is for a single place. -/
theorem passes_place_iff {place : Nat} (h : DotsToNext p {place} d) :
    Passes p n place ↔ d ≤ n := by
  rw [← h.passes_iff]
  exact ⟨fun hp ↦ ⟨place, rfl, hp⟩, fun ⟨_, hsame, hp⟩ ↦ hsame ▸ hp⟩

/-- What is next after a stretch that passes none of the places was next before it. -/
theorem of_later (hnone : ∀ place ∈ places, ¬Passes p m place)
    (h : DotsToNext ((p + m) % frameDots) places n) : DotsToNext p places (m + n) := by
  obtain ⟨⟨hpos, hmem⟩, hleast⟩ := h
  refine ⟨⟨Nat.add_pos_right m hpos, ?_⟩, ?_⟩
  · rwa [Nat.mod_add_mod, Nat.add_assoc] at hmem
  · rintro k ⟨hk, hplace⟩
    have hlt : m < k := Nat.lt_of_not_le fun hle ↦ hnone _ hplace ⟨k, hk, hle, rfl⟩
    have hrest : n ≤ k - m := by
      refine hleast ⟨Nat.sub_pos_of_lt hlt, ?_⟩
      rwa [Nat.mod_add_mod, Nat.add_assoc, Nat.add_sub_cancel' (Nat.le_of_lt hlt)]
    omega

end DotsToNext

/-- Where the drawing of a line ends. -/
def endOfDrawing (line : Nat) : Nat := lineDots * line + drawEnd

/-- Where the lines that are not visible begin. -/
def blankStart : Nat := lineDots * screenHeight

/-- There is a next time that the beam gets there. -/
theorem exists_dotsToBlank (p : Nat) : ∃ d, DotsToNext p {blankStart} d :=
  exists_dotsToNext p (rfl : blankStart ∈ ({blankStart} : Set Nat)) (by decide)

theorem endOfDrawing_lt {line : Nat} (h : line < screenHeight) : endOfDrawing line < frameDots := by
  simp only [endOfDrawing, lineDots, drawEnd, frameDots, frameLines, screenHeight] at *
  omega

namespace Scan

variable {s s' : Scan} {dots : Nat}

/-! ## The position -/

/-- The place of the beam: the dots since the frame began. -/
def position (s : Scan) : Nat := lineDots * s.ppu.line + s.ppu.dot

/-- The beam is inside the frame, and the mode is that of its position. -/
structure Coherent (s : Scan) : Prop where
  dot_lt : s.ppu.dot < lineDots
  line_lt : s.ppu.line < frameLines
  mode_eq : s.ppu.mode = Mode.ofPosition s.ppu.line s.ppu.dot

theorem Settled.coherent (h : s.Settled) : s.Coherent := ⟨h.dot_lt, h.line_lt, h.mode_eq⟩

/-- The bus has no part in it. -/
theorem Coherent.onBus (h : s.Coherent) (bus : SystemBus) : Coherent ⟨s.ppu, bus⟩ :=
  ⟨h.dot_lt, h.line_lt, h.mode_eq⟩

theorem Coherent.position_lt (h : s.Coherent) : s.position < frameDots := by
  have hdot := h.dot_lt
  have hline := h.line_lt
  simp only [position, lineDots, frameLines, frameDots] at *
  omega

/-- The position says where in which line the beam is. -/
theorem Coherent.position_inj (h : s.Coherent) (h' : s'.Coherent)
    (he : s'.position = s.position) :
    s'.ppu.line = s.ppu.line ∧ s'.ppu.dot = s.ppu.dot := by
  have hdot := h.dot_lt
  have hdot' := h'.dot_lt
  simp only [position, lineDots] at he hdot hdot'
  omega

/-- Moving on changes the position and nothing else of the unit. -/
theorem advance_ppu (s : Scan) (dots : Nat) :
    (s.advance dots).ppu =
      { s.ppu with dot := (s.advance dots).ppu.dot, line := (s.advance dots).ppu.line } := by
  rw [advance]
  dsimp only
  split <;> rfl

/-- Where the beam is after it has moved on: further on in the line, or at the start of the next. -/
theorem advance_beam (s : Scan) (dots : Nat) :
    s.ppu.dot + dots < lineDots ∧ (s.advance dots).ppu.line = s.ppu.line ∧
        (s.advance dots).ppu.dot = s.ppu.dot + dots ∨
      lineDots ≤ s.ppu.dot + dots ∧ (s.advance dots).ppu.line = (s.ppu.line + 1) % frameLines ∧
        (s.advance dots).ppu.dot = 0 := by
  rw [advance]
  dsimp only
  split
  · exact Or.inl ⟨‹_›, rfl, rfl⟩
  · exact Or.inr ⟨Nat.le_of_not_lt ‹_›, rfl, rfl⟩

/-- A chunk does not go beyond the end of the line, nor beyond the end of drawing. -/
theorem Coherent.add_le (h : s.Coherent) (hle : dots ≤ dotsToBoundary s.ppu.dot) :
    s.ppu.dot + dots ≤ lineDots ∧ (s.ppu.dot < drawEnd → s.ppu.dot + dots ≤ drawEnd) := by
  refine ⟨Nat.le_trans (Nat.add_le_add_left hle _) (dotsToBoundary_le h.dot_lt), fun hdraw ↦ ?_⟩
  grind [dotsToBoundary, searchEnd, drawEnd]

theorem Coherent.position_advance (h : s.Coherent) (hle : dots ≤ dotsToBoundary s.ppu.dot) :
    (s.advance dots).position = (s.position + dots) % frameDots := by
  have hdot := h.dot_lt
  have hline := h.line_lt
  have hend := (h.add_le hle).1
  have hbeam := advance_beam s dots
  simp only [position, lineDots, frameLines, frameDots] at *
  omega

/-! ## Changes of mode -/

/-- The beam has got to a stretch of another mode than the one it was in. -/
def Enters (s : Scan) (mode : Mode) : Prop :=
  Mode.ofPosition s.ppu.line s.ppu.dot = mode ∧ s.ppu.mode ≠ mode

instance (s : Scan) (mode : Mode) : Decidable (s.Enters mode) :=
  inferInstanceAs (Decidable (_ ∧ _))

/-- What a change of mode does: something at the end of the drawing of a line, something at the end
of the visible lines, and nothing else. -/
theorem updateMode_eq (s : Scan) :
    s.updateMode =
      let moved : Scan :=
        { s with ppu := { s.ppu with mode := Mode.ofPosition s.ppu.line s.ppu.dot } }
      if s.Enters .hBlank then moved.drawLine
      else if s.Enters .vBlank then ⟨.ok (), moved.beginFrame⟩
      else ⟨.ok (), moved⟩ := by
  have henters (mode : Mode) : s.Enters mode ↔
      Mode.ofPosition s.ppu.line s.ppu.dot = mode ∧ s.ppu.mode ≠ mode := Iff.rfl
  rw [updateMode]
  simp only [henters]
  generalize Mode.ofPosition s.ppu.line s.ppu.dot = mode
  by_cases hsame : mode = s.ppu.mode
  · have hno (m : Mode) : ¬(mode = m ∧ s.ppu.mode ≠ m) := fun h ↦ h.2 (hsame ▸ h.1)
    rw [if_pos hsame, if_neg (hno _), if_neg (hno _), hsame]
  · rw [if_neg hsame]
    cases mode <;> simp [Ne.symm hsame]

/-- What a change of mode leaves, the screen apart: the mode, and at the end of the visible lines
one more frame and the request that goes with it. -/
theorem updateMode_state (s : Scan) :
    ∃ screen, s.updateMode.state =
      { ppu :=
          { s.ppu with
            mode := Mode.ofPosition s.ppu.line s.ppu.dot
            screen
            frameCount := s.ppu.frameCount + if s.Enters .vBlank then 1 else 0 }
        bus := if s.Enters .vBlank then s.bus.request .vBlank else s.bus } := by
  rw [updateMode_eq]
  dsimp only
  by_cases hdraw : s.Enters .hBlank
  · have hno : ¬s.Enters .vBlank := fun h ↦ Mode.noConfusion (hdraw.1.symm.trans h.1)
    rw [if_pos hdraw, if_neg hno, if_neg hno]
    obtain ⟨hbus, screen, hppu⟩ := drawLine_frame
      { s with ppu := { s.ppu with mode := Mode.ofPosition s.ppu.line s.ppu.dot } }
    refine ⟨screen, ?_⟩
    show Scan.mk (drawLine _).state.ppu (drawLine _).state.bus = _
    rw [hppu, hbus, Nat.add_zero]
  · rw [if_neg hdraw]
    refine ⟨s.ppu.screen, ?_⟩
    split <;> rfl

theorem ofPosition_eq_hBlank_iff {line dot : Nat} :
    Mode.ofPosition line dot = .hBlank ↔ line < screenHeight ∧ drawEnd ≤ dot := by
  grind [Mode.ofPosition, searchEnd, drawEnd]

theorem ofPosition_eq_vBlank_iff {line dot : Nat} :
    Mode.ofPosition line dot = .vBlank ↔ screenHeight ≤ line := by
  grind [Mode.ofPosition]

theorem mode_advance (s : Scan) (dots : Nat) : (s.advance dots).ppu.mode = s.ppu.mode := by
  rw [advance_ppu]

/-- **The beam gets to the end of the drawing of a line at the end of a chunk, or not in it.** -/
theorem Coherent.enters_hBlank_iff (h : s.Coherent) (hle : dots ≤ dotsToBoundary s.ppu.dot)
    {y : Nat} (hy : y < screenHeight) :
    (s.advance dots).Enters .hBlank ∧ (s.advance dots).ppu.line = y ↔
      Passes s.position dots (endOfDrawing y) := by
  have hdot := h.dot_lt
  have hline := h.line_lt
  obtain ⟨hend, hdraw⟩ := h.add_le hle
  have hbeam := advance_beam s dots
  rw [Enters, mode_advance, h.mode_eq, ofPosition_eq_hBlank_iff, Ne, ofPosition_eq_hBlank_iff]
  simp only [position, endOfDrawing, Passes, lineDots, frameLines, frameDots, screenHeight,
    drawEnd] at *
  constructor
  · intro hentered
    exact ⟨dots, by omega, by omega, by omega⟩
  · rintro ⟨k, hpos, hk, hplace⟩
    omega

/-- The dots of the lines that are not visible. -/
def blankDots : Nat := lineDots * (frameLines - screenHeight)

/-- The frames begun when so many dots have passed since the first began: one for each time that the
beam has got to the end of the visible lines. -/
def framesBegun (dots : Nat) : Nat := (dots + blankDots) / frameDots

/-- As many frames begin from a place in the frame as from the same place in the first. -/
theorem framesBegun_mod_add (p n : Nat) :
    framesBegun (p % frameDots + n) + framesBegun p =
      framesBegun (p + n) + framesBegun (p % frameDots) := by
  simp only [framesBegun, frameDots, lineDots, frameLines]
  omega

/-- The frames begun in one stretch and in the next are those begun in both. -/
theorem framesBegun_trans {p m n a b c : Nat} (hfirst : b + framesBegun p = a + framesBegun (p + m))
    (hsecond : c + framesBegun ((p + m) % frameDots) =
      b + framesBegun ((p + m) % frameDots + n)) :
    c + framesBegun p = a + framesBegun (p + (m + n)) := by
  have hplace := framesBegun_mod_add (p + m) n
  rw [← Nat.add_assoc]
  omega

section NextFrame

variable {p n d : Nat} (h : DotsToNext p {blankStart} d)

include h

/-- No frame begins before the beam gets to the end of the visible lines. -/
theorem framesBegun_of_lt (hlt : n < d) : framesBegun (p + n) = framesBegun p := by
  have hpos : 0 < d := h.1.1
  have hplace : (p + d) % frameDots = blankStart := h.1.2
  have hframe := h.le_frameDots
  simp only [framesBegun, blankStart, blankDots, lineDots, frameLines, frameDots,
    screenHeight] at *
  omega

/-- When it gets there one begins, and no other for a whole frame. -/
theorem framesBegun_of_le (hle : d ≤ n) (hlt : n < d + frameDots) :
    framesBegun (p + n) = framesBegun p + 1 := by
  have hpos : 0 < d := h.1.1
  have hplace : (p + d) % frameDots = blankStart := h.1.2
  have hframe := h.le_frameDots
  simp only [framesBegun, blankStart, blankDots, lineDots, frameLines, frameDots,
    screenHeight] at *
  omega

end NextFrame

theorem Coherent.framesBegun_add (h : s.Coherent) (hle : dots ≤ dotsToBoundary s.ppu.dot) :
    framesBegun (s.position + dots) =
      framesBegun s.position + if (s.advance dots).Enters .vBlank then 1 else 0 := by
  have hdot := h.dot_lt
  have hline := h.line_lt
  obtain ⟨hend, -⟩ := h.add_le hle
  have hbeam := advance_beam s dots
  have hiff : (s.advance dots).Enters .vBlank ↔
      s.ppu.line + 1 = screenHeight ∧ s.ppu.dot + dots = lineDots := by
    rw [Enters, mode_advance, h.mode_eq, ofPosition_eq_vBlank_iff, Ne, ofPosition_eq_vBlank_iff]
    simp only [lineDots, frameLines, screenHeight] at *
    omega
  by_cases henters : (s.advance dots).Enters .vBlank
  · have hat := hiff.1 henters
    rw [if_pos henters]
    simp only [framesBegun, blankDots, position, lineDots, frameLines, frameDots,
      screenHeight] at *
    omega
  · have hat := mt hiff.2 henters
    rw [if_neg henters]
    simp only [framesBegun, blankDots, position, lineDots, frameLines, frameDots,
      screenHeight] at *
    omega

/-- The beam has moved on by `n` dots, and the frames begun in them have been counted. -/
structure MovedOn (s : Scan) (n : Nat) (s' : Scan) : Prop where
  coherent : s'.Coherent
  position_eq : s'.position = (s.position + n) % frameDots
  frames_eq : s'.ppu.frameCount + framesBegun s.position =
    s.ppu.frameCount + framesBegun (s.position + n)

theorem Coherent.movedOn_zero (h : s.Coherent) : MovedOn s 0 s where
  coherent := h
  position_eq := (Nat.mod_eq_of_lt h.position_lt).symm
  frames_eq := rfl

namespace MovedOn

variable {s'' : Scan} {m n : Nat}

/-- One stretch after the other is one stretch. -/
theorem trans (h : MovedOn s m s') (h' : MovedOn s' n s'') : MovedOn s (m + n) s'' where
  coherent := h'.coherent
  position_eq := by
    rw [h'.position_eq, h.position_eq, Nat.mod_add_mod, Nat.add_assoc]
  frames_eq := framesBegun_trans h.frames_eq (h.position_eq ▸ h'.frames_eq)

/-- The bus has no part in it. -/
theorem onBus (h : MovedOn s n s') (bus bus' : SystemBus) :
    MovedOn ⟨s.ppu, bus⟩ n ⟨s'.ppu, bus'⟩ where
  coherent := h.coherent.onBus bus'
  position_eq := h.position_eq
  frames_eq := h.frames_eq

/-- What is done at the end of a chunk has no part in it either. -/
theorem updateStatus (h : MovedOn s n s') : MovedOn s n s'.updateStatus where
  coherent := ⟨h.coherent.dot_lt, h.coherent.line_lt, h.coherent.mode_eq⟩
  position_eq := h.position_eq
  frames_eq := h.frames_eq

/-- In a frame at most, one frame begins if the beam gets to the end of the visible lines. -/
theorem frameCount_of_passes (h : MovedOn s n s') (hn : n ≤ frameDots)
    (hpasses : Passes s.position n blankStart) :
    s'.ppu.frameCount = s.ppu.frameCount + 1 := by
  obtain ⟨d, hnext⟩ := exists_dotsToBlank s.position
  have hlt : n < d + frameDots := Nat.lt_of_le_of_lt hn (Nat.lt_add_of_pos_left hnext.1.1)
  have hframes := h.frames_eq
  rw [framesBegun_of_le hnext (hnext.passes_place_iff.1 hpasses) hlt] at hframes
  omega

/-- And none if it does not. -/
theorem frameCount_of_not_passes (h : MovedOn s n s')
    (hpasses : ¬Passes s.position n blankStart) : s'.ppu.frameCount = s.ppu.frameCount := by
  obtain ⟨d, hnext⟩ := exists_dotsToBlank s.position
  have hframes := h.frames_eq
  rw [framesBegun_of_lt hnext (Nat.lt_of_not_le (mt hnext.passes_place_iff.2 hpasses))] at hframes
  omega

end MovedOn

end Scan
end Handheld
