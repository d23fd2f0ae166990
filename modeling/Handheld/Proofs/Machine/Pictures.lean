import Handheld.Proofs.Machine.Runs
import Handheld.Proofs.Video.Pictures

/-!
# The pictures that a machine completes

`Machine.pictures` are the screens at the moments of some steps of a machine at which the picture
unit enters the vertical blank.  As many of them as there are, so many frames have begun
(`Machine.length_pictures`).

Who looks at the screen only now and then still gets them all, as they were, if the frame count is
looked at often enough: in steps that take less than 4810 cycles there is one picture at most, and it
is what the screen still shows after them (`Machine.pictures_eq_of_short`).
-/

set_option autoImplicit false

namespace Handheld
namespace Machine

variable {m m' m₁ : Machine} {c dots j k t : Nat}

/-- The pictures that are complete in the next step: the picture unit ticks on what the processor
leaves, for as long as the step takes. -/
def picturesInStep (m : Machine) : List Screen :=
  match m.core.step.answer with
  | .ok cycles => Scan.pictures ⟨m.ppu, m.core.step.state.bus⟩ cycles
  | .error _ => []

/-- The pictures that are complete in the next `k` steps. -/
def pictures (m : Machine) : Nat → List Screen
  | 0 => []
  | k + 1 => m.pictures k ++ (m.steps k).state.picturesInStep

theorem pictures_add (h : m.steps j = ⟨.ok t, m₁⟩) (k : Nat) :
    m.pictures (j + k) = m.pictures j ++ m₁.pictures k := by
  induction k with
  | zero => rw [Nat.add_zero, pictures, List.append_nil]
  | succ k ih =>
    have hstate : (m.steps (j + k)).state = (m₁.steps k).state := by
      rw [steps_add, h, Outcome.andThen_ok]
      rcases m₁.steps k with ⟨e | t', m₂⟩ <;> rfl
    rw [← Nat.add_assoc, pictures, ih, hstate, List.append_assoc, pictures]

/-- **In a step there is one picture at most**, and it is on the screen after the step. -/
theorem picturesInStep_eq (h : m.scan.Coherent) (hs : m.step = ⟨.ok c, m'⟩) :
    m.picturesInStep =
      if m'.ppu.frameCount = m.ppu.frameCount then [] else [m'.ppu.screen] := by
  obtain ⟨s, htick, hppu, -⟩ := scan_of_step hs
  obtain ⟨hanswer, -⟩ := step_eq_ok.1 hs
  obtain ⟨-, -, hle⟩ := step_range hs
  rw [picturesInStep, hanswer, hppu]
  exact (h.onBus m.core.step.state.bus).pictures_eq htick (Nat.le_trans hle (by decide))

/-- A step in which no line is drawn leaves the screen. -/
theorem screen_of_step (h : m.scan.Coherent) (hs : m.step = ⟨.ok c, m'⟩)
    (hno : ∀ y : Fin screenHeight, ¬Passes m.scan.position c (endOfDrawing y)) :
    m'.ppu.screen = m.ppu.screen := by
  obtain ⟨s, htick, hppu, -⟩ := scan_of_step hs
  rw [hppu]
  exact ((h.onBus m.core.step.state.bus).swept_tick htick).screen_eq hno

/-- **In a short time there is one picture at most**, and it is on the screen at the end.  The time is
short if a frame that begins in it does not get as far as the end of its first line. -/
theorem pictures_eq_of_short (h : m.scan.RunFor dots) (hsteps : m.steps k = ⟨.ok t, m'⟩)
    (hshort : t < 4810) :
    m.pictures k =
      if m'.ppu.frameCount = m.ppu.frameCount then [] else [m'.ppu.screen] := by
  induction k generalizing m' t with
  | zero =>
    cases hsteps
    rw [pictures, if_pos rfl]
  | succ k ih =>
    obtain ⟨t, m₁, c, hbefore, hs, rfl⟩ := steps_succ_eq_ok.1 hsteps
    have h₁ := runFor_steps h hbefore
    rw [pictures, ih hbefore (by omega), hbefore, picturesInStep_eq h₁.coherent hs]
    by_cases hbegun : m₁.ppu.frameCount = m.ppu.frameCount
    · rw [if_pos hbegun, List.nil_append, hbegun]
    · -- the frame has begun before the last step, which does not draw
      have hframes : Scan.framesBegun (dots + t) ≠ Scan.framesBegun dots := fun he ↦
        hbegun (h₁.frameCount_eq.trans (he.trans h.frameCount_eq.symm))
      have hone : m'.ppu.frameCount = m₁.ppu.frameCount := by
        refine (runFor_step h₁ hs).frameCount_eq.trans (Eq.trans ?_ h₁.frameCount_eq.symm)
        rw [Nat.add_assoc]
        exact Scan.framesBegun_eq_of_ne (Nat.lt_trans hshort (by decide)) hframes
      have hstays : m'.ppu.screen = m₁.ppu.screen := by
        refine screen_of_step h₁.coherent hs ?_
        rw [h₁.position_eq]
        exact not_passes_behind hshort hframes
      rw [if_neg hbegun, if_pos hone, List.append_nil, if_neg (hone ▸ hbegun), hstays]

/-- With a step one frame begins at most. -/
theorem frameCount_of_step (h : m.scan.RunFor dots) (hs : m.step = ⟨.ok c, m'⟩) :
    m'.ppu.frameCount = m.ppu.frameCount ∨ m'.ppu.frameCount = m.ppu.frameCount + 1 := by
  have hbefore : m.ppu.frameCount = Scan.framesBegun dots := h.frameCount_eq
  have hafter : m'.ppu.frameCount = Scan.framesBegun (dots + c) := (runFor_step h hs).frameCount_eq
  obtain ⟨-, -, hle⟩ := step_range hs
  simp only [Scan.framesBegun, frameDots, lineDots, frameLines] at hbefore hafter
  omega

/-- **There are as many pictures as frames have begun.** -/
theorem length_pictures (h : m.scan.RunFor dots) (hsteps : m.steps k = ⟨.ok t, m'⟩) :
    m'.ppu.frameCount = m.ppu.frameCount + (m.pictures k).length := by
  induction k generalizing m' t with
  | zero =>
    cases hsteps
    rfl
  | succ k ih =>
    obtain ⟨t, m₁, c, hbefore, hs, rfl⟩ := steps_succ_eq_ok.1 hsteps
    have h₁ := runFor_steps h hbefore
    rw [pictures, List.length_append, ← Nat.add_assoc, ← ih hbefore, hbefore,
      picturesInStep_eq h₁.coherent hs]
    rcases frameCount_of_step h₁ hs with hsame | hone
    · rw [if_pos hsame, hsame, List.length_nil, Nat.add_zero]
    · rw [if_neg (by omega), hone, List.length_singleton]

end Machine
end Handheld
