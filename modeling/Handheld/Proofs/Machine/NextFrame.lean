import Handheld.Proofs.Machine.Idle
import Handheld.Proofs.Machine.Runs

/-!
# Running to the next frame

`Machine.stepFrame` makes steps until a frame has begun, but for two frames at most.  The bound is
never what ends it.  A frame begins when the beam gets to the end of the visible lines; that is not
more than a frame away, and the beam moves on by as many dots as the steps take cycles
(`Machine.movedOn_steps`).  So the loop is one that uses up a number of cycles, the distance to that
place (`Machine.Approaches.goesOn_iff`), and it ends with the step that gets there
(`Machine.stepFrame_ends`).
-/

set_option autoImplicit false

namespace Handheld

/-! ## Up to the end of the visible lines -/

namespace Scan.MovedOn

variable {s s' : Scan} {n d : Nat} (h : s.MovedOn n s')
  (hnext : DotsToNext s.position {blankStart} d)

include h hnext

/-- **A frame has begun when the dots to the end of the visible lines are over.** -/
theorem frameCount_lt_iff (hlt : n < d + frameDots) :
    s'.ppu.frameCount < s.ppu.frameCount + 1 ↔ n < d := by
  have hframes := h.frames_eq
  rcases Nat.lt_or_ge n d with hbefore | hafter
  · rw [framesBegun_of_lt hnext hbefore] at hframes
    omega
  · rw [framesBegun_of_le hnext hafter hlt] at hframes
    omega

/-- Where the beam is less than a line later. -/
theorem behind_visible (hle : d ≤ n) (hlt : n < d + lineDots) :
    s'.ppu.frameCount = s.ppu.frameCount + 1 ∧ s'.ppu.line = screenHeight ∧
      n = d + s'.ppu.dot ∧ s'.ppu.mode = .vBlank := by
  have hframes := h.frames_eq
  rw [framesBegun_of_le hnext hle (Nat.lt_trans hlt (Nat.add_lt_add_left (by decide) d))]
    at hframes
  have hplace : (s.position + d) % frameDots = blankStart := hnext.1.2
  have hposition := h.position_eq
  have hdot := h.coherent.dot_lt
  have hat : s'.ppu.line = screenHeight ∧ n = d + s'.ppu.dot := by
    simp only [position, blankStart, lineDots, frameDots, frameLines, screenHeight] at *
    omega
  refine ⟨by omega, hat.1, hat.2, ?_⟩
  rw [h.coherent.mode_eq, hat.1, ofPosition_eq_vBlank_iff]

end Scan.MovedOn

namespace Machine

variable {m m' m₁ : Machine} {c d k t limit : Nat}

/-! ## The beam in many steps -/

/-- The beam moves on by as many dots as the step takes cycles, whatever is done to the bus. -/
theorem movedOn_step (h : m.scan.Coherent) (hs : m.step = ⟨.ok c, m'⟩) :
    m.scan.MovedOn c m'.scan := by
  obtain ⟨s, htick, hppu, -⟩ := scan_of_step hs
  have hmoved := ((h.onBus m.core.step.state.bus).swept_tick htick).movedOn.onBus m.bus m'.bus
  rw [← hppu] at hmoved
  exact hmoved

theorem movedOn_steps (h : m.scan.Coherent) (hsteps : m.steps k = ⟨.ok t, m'⟩) :
    m.scan.MovedOn t m'.scan := by
  induction k generalizing t m' with
  | zero =>
    cases hsteps
    exact h.movedOn_zero
  | succ k ih =>
    obtain ⟨t, m₁, c, hbefore, hs, rfl⟩ := steps_succ_eq_ok.1 hsteps
    have hfirst := ih hbefore
    exact hfirst.trans (movedOn_step hfirst.coherent hs)

/-! ## The loop -/

/-- A round of the loop is a step and then the rest. -/
theorem runToFrame_of_goesOn {target : Nat} (hgoes : m.ppu.frameCount < target ∧ t < limit) :
    runToFrame target limit m t =
      m.step.andThen fun cycles m ↦ runToFrame target limit m (t + cycles) := by
  rw [runToFrame, if_pos hgoes]
  split
  · rename_i hs
    rw [hs, Outcome.andThen_error]
  · rename_i hs
    rw [hs, Outcome.andThen_ok]

/-- How a loop ends that makes steps until `d` cycles are used up, or one fails. -/
def UsesUp (m : Machine) (d : Nat) : Outcome Machine Nat → Prop
  | ⟨.ok c, m'⟩ => m.Approaches d c m' ∧ d ≤ c ∧ c < d + 24
  | ⟨.error e, m'⟩ => ∃ t m₁, m.Approaches d t m₁ ∧ t < d ∧ m₁.step = ⟨.error e, m'⟩

section Loop

variable (h : m.scan.Coherent) (hnext : DotsToNext m.scan.position {blankStart} d)

include h hnext

/-- On its way the loop goes on as long as there are cycles to be used up, if its bound is not below
their number. -/
theorem Approaches.goesOn_iff (ha : m.Approaches d t m₁) (ht : t < d + 24) (hlimit : d ≤ limit) :
    m₁.ppu.frameCount < m.ppu.frameCount + 1 ∧ t < limit ↔ t < d := by
  obtain ⟨k, hsteps, -⟩ := ha
  have hcount : m₁.ppu.frameCount < m.ppu.frameCount + 1 ↔ t < d :=
    (movedOn_steps h hsteps).frameCount_lt_iff hnext
      (Nat.lt_trans ht (Nat.add_lt_add_left (by decide) d))
  omega

/-- **The loop uses up the cycles to the end of the visible lines.** -/
theorem usesUp_runToFrame (hlimit : d ≤ limit) (ha : m.Approaches d t m₁) (ht : t < d + 24) :
    m.UsesUp d (runToFrame (m.ppu.frameCount + 1) limit m₁ t) := by
  fun_induction runToFrame (m.ppu.frameCount + 1) limit m₁ t with
  | case1 m₁ t hgoes e m₂ hs =>
    exact ⟨t, m₁, ha, (ha.goesOn_iff h hnext ht hlimit).1 hgoes, hs⟩
  | case2 m₁ t hgoes c m₂ hs ih =>
    have hlt := (ha.goesOn_iff h hnext ht hlimit).1 hgoes
    have hle := (step_range hs).2.2
    exact ih (ha.step hlt hs) (by omega)
  | case3 m₁ t hends =>
    exact ⟨ha, Nat.le_of_not_lt (mt (ha.goesOn_iff h hnext ht hlimit).2 hends), ht⟩

/-- **The bound does not matter**, as long as it is not below their number. -/
theorem runToFrame_limit {more : Nat} (hlimit : d ≤ limit) (hmore : d ≤ more)
    (ha : m.Approaches d t m₁) (ht : t < d + 24) :
    runToFrame (m.ppu.frameCount + 1) more m₁ t =
      runToFrame (m.ppu.frameCount + 1) limit m₁ t := by
  fun_induction runToFrame (m.ppu.frameCount + 1) limit m₁ t with
  | case1 m₁ t hgoes e m₂ hs =>
    have hlt := (ha.goesOn_iff h hnext ht hlimit).1 hgoes
    rw [runToFrame_of_goesOn ((ha.goesOn_iff h hnext ht hmore).2 hlt), hs, Outcome.andThen_error]
  | case2 m₁ t hgoes c m₂ hs ih =>
    have hlt := (ha.goesOn_iff h hnext ht hlimit).1 hgoes
    have hle := (step_range hs).2.2
    rw [runToFrame_of_goesOn ((ha.goesOn_iff h hnext ht hmore).2 hlt), hs, Outcome.andThen_ok]
    exact ih (ha.step hlt hs) (by omega)
  | case3 m₁ t hends =>
    have hge := mt (ha.goesOn_iff h hnext ht hlimit).2 hends
    rw [runToFrame, if_neg (mt (ha.goesOn_iff h hnext ht hmore).1 hge)]

end Loop

/-! ## The next frame -/

/-- **Running to the next frame ends with the step that gets there.**  From any place in the frame
there are between one and `frameDots` cycles to the end of the visible lines.  If no step fails, the
steps made are the least number that uses them up; then one more frame has begun, and the beam is
less than 24 dots into the first line that is not visible.  A failure is that of a step before.  And
the bound on the cycles has no part in it: any other that is not below what is left gives the
same. -/
theorem stepFrame_ends (h : m.scan.Coherent) :
    ∃ d, 0 < d ∧ d ≤ frameDots ∧ DotsToNext m.scan.position {blankStart} d ∧
      (∀ c m', m.stepFrame = ⟨.ok c, m'⟩ →
        (d ≤ c ∧ c < d + 24) ∧ m'.ppu.frameCount = m.ppu.frameCount + 1 ∧
          m'.ppu.line = screenHeight ∧ c = d + m'.ppu.dot ∧ m'.ppu.dot < 24 ∧
          m'.ppu.mode = .vBlank ∧
          ∃ k, IsLeast {k | ∃ t, (m.steps k).answer = .ok t ∧ d ≤ t} k ∧
            m.steps k = ⟨.ok c, m'⟩) ∧
      (∀ e m', m.stepFrame = ⟨.error e, m'⟩ →
        ∃ k t m₁, m.steps k = ⟨.ok t, m₁⟩ ∧ t < d ∧ m₁.step = ⟨.error e, m'⟩) ∧
      ∀ limit ≥ d, runToFrame (m.ppu.frameCount + 1) limit m 0 = m.stepFrame := by
  obtain ⟨d, hnext⟩ := exists_dotsToBlank m.scan.position
  have hstart : 0 < d + 24 := Nat.add_pos_right d (by decide)
  have hbound : d ≤ 2 * frameDots := Nat.le_trans hnext.le_frameDots (by decide)
  have huses : m.UsesUp d m.stepFrame := usesUp_runToFrame h hnext hbound (.start m d) hstart
  refine ⟨d, hnext.1.1, hnext.le_frameDots, hnext, fun c m' hrun ↦ ?_, fun e m' hrun ↦ ?_,
    fun limit hlimit ↦ runToFrame_limit h hnext hbound hlimit (.start m d) hstart⟩
  · rw [hrun] at huses
    obtain ⟨happroaches, hle, hlt⟩ := huses
    obtain ⟨k, hleast, hsteps⟩ := happroaches.isLeast hle
    obtain ⟨hcount, hline, hplace, hmode⟩ :=
      (movedOn_steps h hsteps).behind_visible hnext hle
        (Nat.lt_trans hlt (Nat.add_lt_add_left (by decide) d))
    have hdot : c = d + m'.ppu.dot := hplace
    exact ⟨⟨hle, hlt⟩, hcount, hline, hdot, by omega, hmode, k, hleast, hsteps⟩
  · rw [hrun] at huses
    obtain ⟨t, m₁, ⟨k, hsteps, -⟩, hlt, hfails⟩ := huses
    exact ⟨k, t, m₁, hsteps, hlt, hfails⟩

/-- A program that sleeps gets through the visible lines of the first frame. -/
theorem stepFrame_ends_asleep :
    ∃ m c m', assemble (some sleepProgram.bytes) none = .ok m ∧ m.scan.Coherent ∧
      m.stepFrame = ⟨.ok c, m'⟩ ∧ 65664 ≤ c ∧ c < 65688 ∧
      m'.ppu.frameCount = 1 ∧ m'.ppu.line = 144 := by
  obtain ⟨m, hm⟩ := exists_assemble_boot sleepProgram
  have hfresh := runFor_assemble hm
  have hcount : m.ppu.frameCount = 0 := hfresh.frameCount_eq
  obtain ⟨d, hpos, hle, hnext, hends, hfails, -⟩ := stepFrame_ends hfresh.coherent
  have hd : d = 65664 := by
    have hplace : (m.scan.position + d) % frameDots = blankStart := hnext.1.2
    rw [hfresh.position_eq] at hplace
    simp only [blankStart, lineDots, frameDots, frameLines, screenHeight] at *
    omega
  subst hd
  rcases hrun : m.stepFrame with ⟨e | c, m'⟩
  · obtain ⟨k, t, m₁, hsteps, -, hfail⟩ := hfails e m' hrun
    obtain ⟨total, m₂, hok⟩ := steps_of_sleepProgram hm (k + 1)
    obtain ⟨t', m₁', c, hsteps', hstep, -⟩ := steps_succ_eq_ok.1 hok
    rw [hsteps] at hsteps'
    cases hsteps'
    rw [hfail] at hstep
    cases hstep
  · obtain ⟨⟨hge, hlt⟩, hframes, hline, -⟩ := hends c m' hrun
    exact ⟨m, c, m', hm, hfresh.coherent, hrun, hge, hlt, by rw [hframes, hcount], hline⟩

end Machine
end Handheld
