import Handheld.Proofs.Cpu.Switches
import Handheld.Proofs.Machine.Steps
import Handheld.Proofs.Video.DotByDot

/-!
# A machine at rest

In a memory of zeros there is nothing to carry out but `nop`, which takes four cycles.  A machine
that starts in such a memory is the simplest one that runs, and the theorems on runs are tried on
it.
-/

set_option autoImplicit false

namespace Handheld
namespace Machine

/-- A machine that finds itself in work RAM. -/
def restingOn (bus : SystemBus) : Machine := { cpu := .startingAt 0xC000, bus }

theorem step_restingOn {bus : SystemBus} (h : bus.IsBlank) :
    ∃ m', (restingOn bus).step = ⟨.ok 4, m'⟩ ∧ m'.cpu = .startingAt 0xC001 := by
  have hie : bus.read 0xFFFF = 0 := h.read_eq (by decide) (by decide)
  have hpc : bus.read 0xC000 = 0 := h.read_eq (by decide) (by decide)
  have hpending : (restingOn bus).core.pending = 0 := by
    show bus.read 0xFFFF &&& bus.read 0xFF0F &&& 0x1F = 0
    rw [hie, UInt8.zero_and, UInt8.zero_and]
  have hfetch : Instruction.fetch? bus 0xC000 = some .nop := by
    show Instruction.decode (bus.read 0xC000) (bus.read 0xC001) (bus.read 0xC002) = _
    rw [hpc]
    rfl
  have hcore : (restingOn bus).core.step = ⟨.ok 4, ⟨.startingAt 0xC001, bus⟩⟩ :=
    Core.step_of_execute (Core.nextAction_of_fetch hpending rfl hfetch)
  obtain ⟨s, hs⟩ : ∃ s, Scan.tick ⟨(restingOn bus).ppu, bus⟩ 4 = ⟨.ok (), s⟩ := by
    refine ⟨_, Outcome.eq_ok_of_answer ?_⟩
    rw [Scan.tick_eq_chunk (by decide)]
    exact congrArg Outcome.answer (Scan.tick_zero _)
  refine ⟨_, step_eq_ok.2 ⟨by rw [hcore], catchUp_eq_ok.2 ⟨s, ?_, rfl⟩⟩, ?_⟩
  · rw [hcore]
    exact hs
  · rw [hcore]

end Machine
end Handheld
