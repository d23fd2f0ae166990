import Handheld.Proofs.Video.Requests
import Mathlib.Algebra.GroupWithZero.Nat

/-!
# Where the beam is after so much time

From the moment it is switched on the picture unit goes its way, and nothing that happens on the bus
turns it aside.  Its position, its mode and the number of frames that it has begun are functions of
one number, the dots that have passed (`Scan.beam_of_ticks`), however these came in ticks and
whatever was done to memory between one tick and the next.

`Scan.RunFor` is the invariant of a series of ticks.  A single tick adds its dots to the number
(`Scan.RunFor.tick`), since what it does was said of a tick from any place in the frame
(`Scan.Swept`), and a change of the bus adds nothing.
-/

set_option autoImplicit false

namespace Handheld
namespace Scan

variable {s s' : Scan} {dots n : Nat}

/-- A series of ticks: before each, something is done to the bus.  The first failure ends it. -/
def ticks (s : Scan) : List ((SystemBus → SystemBus) × Nat) → Outcome Scan Unit
  | [] => ⟨.ok (), s⟩
  | (change, dots) :: rest =>
    (Scan.tick ⟨s.ppu, change s.bus⟩ dots).andThen fun _ s ↦ s.ticks rest

/-- A first tick that succeeds leaves the rest of the series. -/
theorem ticks_cons_of_ok {change : SystemBus → SystemBus}
    {rest : List ((SystemBus → SystemBus) × Nat)}
    (h : Scan.tick ⟨s.ppu, change s.bus⟩ dots = ⟨.ok (), s'⟩) :
    s.ticks ((change, dots) :: rest) = s'.ticks rest := by
  rw [Scan.ticks, h, Outcome.andThen_ok]

/-- The unit is as it comes to be in so many dots from the start. -/
structure RunFor (dots : Nat) (s : Scan) : Prop where
  coherent : s.Coherent
  position_eq : s.position = dots % frameDots
  frameCount_eq : s.ppu.frameCount = framesBegun dots

namespace RunFor

theorem start (bus : SystemBus) : RunFor 0 ⟨{}, bus⟩ where
  coherent := ⟨(by decide : 0 < lineDots), (by decide : 0 < frameLines), rfl⟩
  position_eq := rfl
  frameCount_eq := (by decide : 0 = framesBegun 0)

/-- The bus has no part in it. -/
theorem onBus (h : RunFor dots s) (bus : SystemBus) : RunFor dots ⟨s.ppu, bus⟩ where
  coherent := h.coherent.onBus bus
  position_eq := h.position_eq
  frameCount_eq := h.frameCount_eq

theorem tick (h : RunFor dots s) (hs : s.tick n = ⟨.ok (), s'⟩) : RunFor (dots + n) s' := by
  have hswept := h.coherent.swept_tick hs
  refine ⟨hswept.coherent, ?_, ?_⟩
  · rw [hswept.position_eq, h.position_eq, Nat.mod_add_mod]
  · have hframes := hswept.frames_eq
    have hplace := framesBegun_mod_add dots n
    rw [h.position_eq, h.frameCount_eq] at hframes
    omega

theorem ticks (h : RunFor dots s) {slices : List ((SystemBus → SystemBus) × Nat)}
    (hs : s.ticks slices = ⟨.ok (), s'⟩) : RunFor (dots + (slices.map Prod.snd).sum) s' := by
  induction slices generalizing s dots with
  | nil =>
    cases hs
    exact h
  | cons slice slices ih =>
    obtain ⟨_, s₁, htick, hrest⟩ := Outcome.andThen_eq_ok.1 hs
    have hnext := ih ((h.onBus (slice.1 s.bus)).tick htick) hrest
    rwa [Nat.add_assoc, ← List.sum_cons, ← List.map_cons] at hnext

/-- The position and the number of frames, each by itself. -/
theorem beam_eq (h : RunFor dots s) :
    s.ppu.dot = dots % lineDots ∧ s.ppu.line = dots / lineDots % frameLines := by
  have hdot := h.coherent.dot_lt
  have hposition := h.position_eq
  simp only [position, frameDots, lineDots, frameLines] at *
  omega

end RunFor

/-- **Where the beam is depends on the time alone.**  A fresh picture unit ticks with any lengths,
and between the ticks anything is done to the bus.  If all ticks succeed, the position, the mode and
the number of frames begun are those that belong to the sum of the lengths, a frame being begun at
the end of the visible lines.  And in any tick that follows, the interrupt of the vertical blank, if
not requested before, is requested exactly when a frame begins. -/
theorem beam_of_ticks {bus : SystemBus} {slices : List ((SystemBus → SystemBus) × Nat)}
    (hs : Scan.ticks ⟨{}, bus⟩ slices = ⟨.ok (), s'⟩) :
    let total := (slices.map Prod.snd).sum
    (s'.ppu.dot = total % lineDots ∧ s'.ppu.line = total / lineDots % frameLines ∧
        s'.ppu.mode = Mode.ofPosition s'.ppu.line s'.ppu.dot ∧
        s'.ppu.frameCount = (total + blankDots) / frameDots) ∧
      ∀ (bus : SystemBus) (n : Nat) (s'' : Scan), Scan.tick ⟨s'.ppu, bus⟩ n = ⟨.ok (), s''⟩ →
        bus.isRequested .vBlank = false →
          (s''.bus.isRequested .vBlank = true ↔ s'.ppu.frameCount < s''.ppu.frameCount) := by
  intro total
  have hrun : RunFor total s' := Nat.zero_add total ▸ (RunFor.start bus).ticks hs
  obtain ⟨hdot, hline⟩ := hrun.beam_eq
  refine ⟨⟨hdot, hline, hrun.coherent.mode_eq, hrun.frameCount_eq⟩, ?_⟩
  intro bus n s'' htick hclear
  have hblank := (blankRequested_tick ⟨s'.ppu, bus⟩ n).requested_eq
  rw [htick, hclear] at hblank
  simp only [hblank, Bool.false_or, decide_eq_true_eq]

/-- Two ticks, on buses that have nothing to do with each other, to the last visible dot of the
second frame.  One more dot, and the interrupt is requested. -/
theorem beam_of_ticks_lastVisibleDot :
    ∃ s' s'',
      Scan.ticks ⟨{}, .blank⟩ [(fun _ ↦ Scanline.cornerSprite, 70000), (fun _ ↦ .blank, 65887)]
          = ⟨.ok (), s'⟩ ∧
        s'.ppu.line = 143 ∧ s'.ppu.dot = 455 ∧ s'.ppu.frameCount = 1 ∧
        Scan.tick ⟨s'.ppu, .blank⟩ 1 = ⟨.ok (), s''⟩ ∧ SystemBus.blank.isRequested .vBlank = false ∧
        s''.bus.isRequested .vBlank = true := by
  have hget (r : IoRegister) : SystemBus.blank.get r = 0 := SystemBus.isBlank_blank.peek_eq _
  have hsmall : ¬SystemBus.blank.lcdControl.TallSprites := by
    rw [SystemBus.lcdControl, hget]
    decide
  have hclear : SystemBus.blank.isRequested .vBlank = false := by
    rw [SystemBus.isRequested, hget]
    decide
  have hfirst := tick_eq_ok (s := ⟨{}, Scanline.cornerSprite⟩) Scanline.control_cornerSprite.1 70000
  generalize (Scan.tick ⟨{}, Scanline.cornerSprite⟩ 70000).state = s at hfirst
  have hsecond := tick_eq_ok (s := ⟨s.ppu, .blank⟩) hsmall 65887
  generalize (Scan.tick ⟨s.ppu, .blank⟩ 65887).state = s' at hsecond
  have hthird := tick_eq_ok (s := ⟨s'.ppu, .blank⟩) hsmall 1
  generalize (Scan.tick ⟨s'.ppu, .blank⟩ 1).state = s'' at hthird
  have hticks (rest : List ((SystemBus → SystemBus) × Nat)) :
      Scan.ticks ⟨{}, .blank⟩
          ((fun _ ↦ Scanline.cornerSprite, 70000) :: (fun _ ↦ .blank, 65887) :: rest)
        = s'.ticks rest :=
    (ticks_cons_of_ok hfirst).trans (ticks_cons_of_ok hsecond)
  have hthree := (hticks [(fun _ ↦ .blank, 1)]).trans (ticks_cons_of_ok hthird)
  obtain ⟨⟨hdot, hline, -, hframes⟩, hnext⟩ := beam_of_ticks (hticks [])
  obtain ⟨⟨-, -, -, hframes'⟩, -⟩ := beam_of_ticks hthree
  simp only [List.map_cons, List.map_nil, List.sum_cons, List.sum_nil, lineDots, frameLines,
    frameDots, blankDots, screenHeight, Nat.reduceAdd, Nat.reduceSub, Nat.reduceMul, Nat.reduceDiv,
    Nat.reduceMod] at hdot hline hframes hframes'
  refine ⟨s', s'', hticks [], hline, hdot, hframes, hthird, hclear, ?_⟩
  rw [hnext .blank 1 s'' hthird hclear, hframes, hframes']
  decide

end Scan
end Handheld
