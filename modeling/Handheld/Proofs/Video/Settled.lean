import Handheld.Proofs.Bus.Registers
import Handheld.Video.Ppu

/-!
# The settled picture unit

Between two ticks the picture unit and its registers agree with each other: the mode is that of the
position, the status register shows it together with the coincidence, and the condition of the
status interrupt is known.  `Scan.Settled` says so.  Two facts make it useful:

* every chunk that succeeds leaves a settled unit behind, whatever the registers were before
  (`Scan.settled_of_chunk_eq_ok`);
* on a settled unit, bringing the status register up to date changes nothing
  (`Scan.Settled.updateStatus_eq`).
-/

set_option autoImplicit false

namespace Handheld
namespace Scan

variable {s : Scan}

/-! ## The status register -/

/-- Which bits of the status register a refresh decides, and which it keeps. -/
theorem status_bits (raw : UInt8) (mode : Mode) (c : Bool) :
    let status := (raw &&& 0xF8) ||| mode.number ||| (if c then 0x04 else 0)
    status &&& 3 = mode.number ∧ status.toNat.testBit 2 = c ∧
      ∀ k ∈ [3, 4, 5, 6, 7], status.toNat.testBit k = raw.toNat.testBit k := by
  revert raw
  cases mode <;> cases c <;> decide +kernel

/-- A status register that shows the mode and the coincidence stays as it is. -/
theorem status_of_bits {raw : UInt8} {mode : Mode} {c : Bool} (hm : raw &&& 3 = mode.number)
    (hc : raw.toNat.testBit 2 = c) :
    (raw &&& 0xF8) ||| mode.number ||| (if c then 0x04 else 0) = raw := by
  rw [← hm, ← hc]
  clear hm hc
  revert raw
  decide +kernel

/-- The condition of the status interrupt depends on the upper bits of the status register only. -/
theorem modeSelected_congr {raw raw' : UInt8} (mode : Mode)
    (h : ∀ k ∈ [3, 4, 5, 6, 7], raw'.toNat.testBit k = raw.toNat.testBit k) :
    modeSelected raw' mode = modeSelected raw mode := by
  cases mode with
  | hBlank => exact h 3 (by decide)
  | vBlank => exact h 4 (by decide)
  | search => exact h 5 (by decide)
  | draw => rfl

/-! ## Being settled -/

/-- Picture unit and registers agree: the position is inside the frame, the mode is that of the
position, the status register shows the mode in its low two bits and the coincidence in the next,
and the condition of the status interrupt is that of the sources selected. -/
structure Settled (s : Scan) : Prop where
  dot_lt : s.ppu.dot < lineDots
  line_lt : s.ppu.line < frameLines
  mode_eq : s.ppu.mode = Mode.ofPosition s.ppu.line s.ppu.dot
  modeBits : s.bus.get .lcdStatus &&& 3 = s.ppu.mode.number
  coincidenceBit : (s.bus.get .lcdStatus).toNat.testBit 2 = s.coincidence
  statLine_eq : s.ppu.statLine = s.statCondition

/-- On a settled unit the status register is up to date. -/
theorem Settled.updateStatus_eq (h : s.Settled) : s.updateStatus = s := by
  have hstatus : s.status = s.bus.get .lcdStatus := status_of_bits h.modeBits h.coincidenceBit
  rw [updateStatus, hstatus, SystemBus.set_get_self, ← h.statLine_eq]
  simp only [Bool.and_not_self, Bool.false_eq_true, if_false]

/-- What an update of the status register leaves in the registers that matter here. -/
theorem get_updateStatus (s : Scan) :
    s.updateStatus.bus.get .lcdStatus = s.status ∧
      s.updateStatus.bus.get .lcdYCompare = s.bus.get .lcdYCompare := by
  rw [updateStatus]
  dsimp only
  split
  · exact ⟨by rw [SystemBus.get_request_of_ne _ _ (by decide), SystemBus.get_set_self],
      by rw [SystemBus.get_request_of_ne _ _ (by decide),
        SystemBus.get_set_of_ne _ _ (by decide)]⟩
  · exact ⟨SystemBus.get_set_self _ _ _, SystemBus.get_set_of_ne _ _ (by decide)⟩

/-- **An update of the status register settles a unit** whose mode is that of its position. -/
theorem settled_updateStatus (hdot : s.ppu.dot < lineDots) (hline : s.ppu.line < frameLines)
    (hmode : s.ppu.mode = Mode.ofPosition s.ppu.line s.ppu.dot) : s.updateStatus.Settled := by
  obtain ⟨hstat, hlyc⟩ := get_updateStatus s
  obtain ⟨hbits, hbit, hkept⟩ := status_bits (s.bus.get .lcdStatus) s.ppu.mode s.coincidence
  have hc : s.updateStatus.coincidence = s.coincidence := by
    rw [coincidence, hlyc]
    rfl
  refine ⟨hdot, hline, hmode, ?_, ?_, ?_⟩
  · rw [hstat]
    exact hbits
  · rw [hstat, hc]
    exact hbit
  · show s.statCondition = s.updateStatus.statCondition
    rw [statCondition, statCondition, hc, hstat]
    show _ = ((s.coincidence && s.status.toNat.testBit 6) || modeSelected s.status s.ppu.mode)
    rw [status, hkept 6 (by decide), modeSelected_congr _ hkept]

/-! ## Chunks -/

theorem drawLine_frame (s : Scan) :
    s.drawLine.state.bus = s.bus ∧
      ∃ screen, s.drawLine.state.ppu = { s.ppu with screen } := by
  rw [drawLine]
  split
  · split
    · exact ⟨rfl, _, rfl⟩
    · exact ⟨rfl, s.ppu.screen, rfl⟩
  · exact ⟨rfl, s.ppu.screen, rfl⟩

/-- Acting on a change of mode keeps the position and leaves the mode that belongs to it. -/
theorem updateMode_position (s : Scan) :
    s.updateMode.state.ppu.dot = s.ppu.dot ∧ s.updateMode.state.ppu.line = s.ppu.line ∧
      s.updateMode.state.ppu.mode = Mode.ofPosition s.ppu.line s.ppu.dot := by
  rw [updateMode]
  dsimp only
  split
  · rename_i h
    exact ⟨rfl, rfl, h.symm⟩
  · split
    · rename_i h
      obtain ⟨-, screen, hd⟩ :=
        drawLine_frame { s with ppu := { s.ppu with mode := Mode.ofPosition s.ppu.line s.ppu.dot } }
      rw [hd]
      exact ⟨rfl, rfl, rfl⟩
    all_goals exact ⟨rfl, rfl, rfl⟩

theorem advance_position (s : Scan) (dots : Nat) (hline : s.ppu.line < frameLines) :
    (s.advance dots).ppu.dot < lineDots ∧ (s.advance dots).ppu.line < frameLines := by
  rw [advance]
  dsimp only
  split
  · rename_i h
    exact ⟨h, hline⟩
  · exact ⟨by show 0 < lineDots; decide, Nat.mod_lt _ (by decide)⟩

/-- **A chunk that succeeds leaves a settled unit.** -/
theorem settled_of_chunk_eq_ok {s' : Scan} {dots : Nat} (hline : s.ppu.line < frameLines)
    (h : s.chunk dots = ⟨.ok (), s'⟩) : s'.Settled := by
  obtain ⟨hdot', hline'⟩ := advance_position s dots hline
  obtain ⟨hd, hl, hm⟩ := updateMode_position (s.advance dots)
  rw [chunk] at h
  split at h
  · cases h
    refine settled_updateStatus ?_ ?_ ?_
    · rw [hd]
      exact hdot'
    · rw [hl]
      exact hline'
    · rw [hm, hd, hl]
  · cases h

end Scan
end Handheld
