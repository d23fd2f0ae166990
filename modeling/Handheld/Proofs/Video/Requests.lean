import Handheld.Proofs.Cpu.Dispatch
import Handheld.Proofs.Video.Frame

/-!
# What the picture unit asks for

The picture unit requests two interrupts.  That of the vertical blank goes with the count of frames:
wherever the one is done, so is the other, and so a tick requests the interrupt exactly when it has
begun a frame (`Scan.blankRequested_tick`).  That of the status register goes with the condition
that the unit keeps from one update to the next: a chunk requests it exactly when the condition has
become true (`Scan.isRequested_lcdStat_chunk`).

Nothing here depends on the state that a tick starts from, nor on whether it succeeds, the last
statement apart.
-/

set_option autoImplicit false

namespace Handheld

namespace SystemBus

/-- Whether an interrupt is requested. -/
def isRequested (bus : SystemBus) (source : Interrupt) : Bool :=
  (bus.get .interruptFlag).toNat.testBit source.index

theorem isRequested_set_of_ne (bus : SystemBus) {r : IoRegister} (v : UInt8)
    (hr : r ≠ .interruptFlag) (source : Interrupt) :
    (bus.set r v).isRequested source = bus.isRequested source := by
  rw [isRequested, isRequested, get_set_of_ne bus v (Ne.symm hr)]

theorem isRequested_request (bus : SystemBus) (requested source : Interrupt) :
    (bus.request requested).isRequested source =
      (bus.isRequested source || decide (requested = source)) := by
  have hindex : requested.index.val = source.index.val ↔ requested = source := by
    cases requested <;> cases source <;> decide
  rw [isRequested, get_interruptFlag_request, Interrupt.testBit_or_mask, isRequested]
  simp only [hindex]

end SystemBus

namespace Scan

variable {s s' : Scan} {dots : Nat}

/-! ## The parts of a chunk -/

theorem isRequested_advance (s : Scan) (dots : Nat) (source : Interrupt) :
    (s.advance dots).bus.isRequested source = s.bus.isRequested source := by
  rw [advance]
  dsimp only
  split
  · rfl
  · exact s.bus.isRequested_set_of_ne _ (by decide) source

theorem isRequested_updateMode (s : Scan) (source : Interrupt) :
    s.updateMode.state.bus.isRequested source =
      (s.bus.isRequested source || decide (s.Enters .vBlank ∧ .vBlank = source)) := by
  obtain ⟨screen, hstate⟩ := updateMode_state s
  rw [hstate]
  by_cases hblank : s.Enters .vBlank
  · simp [hblank, SystemBus.isRequested_request]
  · simp [hblank]

theorem isRequested_updateStatus (s : Scan) (source : Interrupt) :
    s.updateStatus.bus.isRequested source =
      (s.bus.isRequested source ||
        (s.statCondition && !s.ppu.statLine && decide (.lcdStat = source))) := by
  have hset := s.bus.isRequested_set_of_ne (r := .lcdStatus) s.status (by decide) source
  rw [updateStatus]
  dsimp only
  split
  · rename_i hrise
    rw [SystemBus.isRequested_request, hset, hrise, Bool.true_and]
  · rename_i hrise
    rw [hset, Bool.eq_false_iff.2 hrise, Bool.false_and, Bool.or_false]

/-- Acting on a change of mode does not touch what is known of the status interrupt. -/
theorem updateMode_statLine (s : Scan) : s.updateMode.state.ppu.statLine = s.ppu.statLine := by
  obtain ⟨screen, hstate⟩ := updateMode_state s
  rw [hstate]

/-! ## The vertical blank -/

/-- What becomes of the count of frames and of the request that goes with it: no frame is taken
back, and if one has begun, the interrupt has been requested. -/
structure BlankRequested (s s' : Scan) : Prop where
  frameCount_le : s.ppu.frameCount ≤ s'.ppu.frameCount
  requested_eq : s'.bus.isRequested .vBlank =
    (s.bus.isRequested .vBlank || decide (s.ppu.frameCount < s'.ppu.frameCount))

namespace BlankRequested

theorem refl (s : Scan) : BlankRequested s s := ⟨Nat.le_refl _, by simp⟩

theorem trans {s'' : Scan} (h : BlankRequested s s') (h' : BlankRequested s' s'') :
    BlankRequested s s'' where
  frameCount_le := Nat.le_trans h.frameCount_le h'.frameCount_le
  requested_eq := by
    have hle := h.frameCount_le
    have hle' := h'.frameCount_le
    rw [h'.requested_eq, h.requested_eq, Bool.or_assoc, ← Bool.decide_or]
    congr 2
    exact propext (by omega)

end BlankRequested

/-- Acting on a change of mode counts a frame and requests the interrupt, or does neither. -/
theorem blankRequested_updateMode (s : Scan) : BlankRequested s s.updateMode.state := by
  have hcount := updateMode_frameCount s
  have hrequest := isRequested_updateMode s .vBlank
  by_cases henters : s.Enters .vBlank
  · rw [if_pos henters] at hcount
    exact ⟨by omega, by rw [hrequest]; simp [henters, hcount]⟩
  · rw [if_neg henters] at hcount
    exact ⟨by omega, by rw [hrequest]; simp [henters, hcount]⟩

theorem blankRequested_chunk (s : Scan) (dots : Nat) :
    BlankRequested s (s.chunk dots).state := by
  have hadvance : BlankRequested s (s.advance dots) := by
    have hsame : (s.advance dots).ppu.frameCount = s.ppu.frameCount := by rw [advance_ppu]
    exact ⟨Nat.le_of_eq hsame.symm, by rw [isRequested_advance, hsame]; simp⟩
  have hmoved := hadvance.trans (blankRequested_updateMode (s.advance dots))
  rw [chunk]
  split
  · -- the update of the status register at the end has no part in this
    refine hmoved.trans ⟨Nat.le_refl _, ?_⟩
    rw [isRequested_updateStatus]
    simp [updateStatus]
  · exact hmoved

/-- **The interrupt of the vertical blank is requested in a tick exactly when a frame begins.** -/
theorem blankRequested_tick (s : Scan) (dots : Nat) : BlankRequested s (s.tick dots).state := by
  induction s, dots using tick_induction with
  | zero s =>
    rw [tick_zero]
    exact .refl s
  | chunk s dots hdots ih =>
    have hfirst := blankRequested_chunk s (min dots (dotsToBoundary s.ppu.dot))
    rw [tick_eq_chunk hdots]
    generalize s.chunk (min dots (dotsToBoundary s.ppu.dot)) = done at hfirst ⊢
    rcases done with ⟨e | ⟨⟩, s'⟩
    · exact hfirst
    · exact hfirst.trans (ih s')

/-! ## The status register -/

/-- **A chunk requests the status interrupt exactly when its condition has become true.** -/
theorem isRequested_lcdStat_chunk (h : s.chunk dots = ⟨.ok (), s'⟩) :
    s'.bus.isRequested .lcdStat =
      (s.bus.isRequested .lcdStat || (s'.ppu.statLine && !s.ppu.statLine)) := by
  obtain ⟨-, rfl⟩ := chunk_eq_ok h
  have hline : (s.advance dots).ppu.statLine = s.ppu.statLine := by rw [advance_ppu]
  rw [isRequested_updateStatus, isRequested_updateMode, isRequested_advance, updateMode_statLine,
    hline]
  simp [updateStatus]

end Scan
end Handheld
