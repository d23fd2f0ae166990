import Handheld.Proofs.Machine.ReadOnly
import Handheld.Proofs.Machine.Runs

/-!
# What the line register shows

The picture unit keeps the line that is being drawn to itself, and writes it to the line register
when a line ends.  In between the register is a byte of memory like others: a program that stores to
it reads its own byte back until the line ends, while the coincidence in the status register goes by
the line itself.

`Machine.storedLine` is the byte that stands in the register in place of the line, if there is one:
the last that has been stored there since a line has ended.  `Machine.ShowsLine` says that the
register shows this byte, or else the line.  It holds when a machine is switched on, and steps and
key events keep it (`Machine.showsLine_through`).  So `Machine.lineRegister_of_run` can say exactly
when the register tells the truth: always, in a program that does not store to it.  A program of two
instructions in the boot ROM is enough for a lie (`Machine.forgedLine`).
-/

set_option autoImplicit false

namespace Handheld

/-! ## The last store -/

/-- The last byte that is stored to an address, if any is. -/
def Bus.lastStore (a : UInt16) (stores : List (UInt16 × UInt8)) : Option UInt8 :=
  stores.reverse.lookup a

theorem Bus.lastStore_eq_none {a : UInt16} {stores : List (UInt16 × UInt8)}
    (h : ∀ v, (a, v) ∉ stores) : lastStore a stores = none := by
  rw [lastStore, List.lookup_eq_none_iff]
  rintro ⟨b, v⟩ hmem
  rw [bne_iff_ne]
  rintro rfl
  exact h v (List.mem_reverse.1 hmem)

namespace SystemBus

theorem get_write_plain (bus : SystemBus) (a : UInt16) (v : UInt8) {r : IoRegister}
    (hr : r ∉ [.joypad, .divider, .interruptFlag, .spriteTransfer, .bootOff]) :
    (bus.write a v).get r = if a = r.address then v else bus.get r := by
  split
  · rename_i h
    rw [h, write_plain bus v hr, get_set_self]
  · rename_i h
    exact get_write_of_ne bus v (Ne.symm h)

/-- After some stores a register without a meaning of its own holds the last byte that was stored to
it. -/
theorem get_replay_plain (bus : SystemBus) (stores : List (UInt16 × UInt8)) {r : IoRegister}
    (hr : r ∉ [.joypad, .divider, .interruptFlag, .spriteTransfer, .bootOff]) :
    (Bus.replay bus stores).get r = (Bus.lastStore r.address stores).getD (bus.get r) := by
  induction stores generalizing bus with
  | nil => rfl
  | cons store stores ih =>
    obtain ⟨a, v⟩ := store
    have hlast : Bus.lastStore r.address ((a, v) :: stores) =
        (Bus.lastStore r.address stores).or (if a = r.address then some v else none) := by
      rw [Bus.lastStore, List.reverse_cons, List.lookup_append]
      by_cases ha : a = r.address
      · simp [Bus.lastStore, ha]
      · have hne : (r.address == a) = false := beq_false_of_ne (Ne.symm ha)
        simp [Bus.lastStore, ha, hne, List.lookup_cons]
    refine (ih (bus.write a v)).trans ?_
    rw [get_write_plain bus a v hr, hlast, Option.getD_or]
    split <;> rfl

end SystemBus

/-! ## The line register in a tick -/

namespace Scan

variable {s s' s'' : Scan} {m n : Nat}

/-- Before the end of the line, the position is so many dots further on. -/
theorem Swept.within_line (hs : s.Coherent) (h : Swept s n s') (hlt : s.ppu.dot + n < lineDots) :
    s'.ppu.line = s.ppu.line ∧ s'.ppu.dot = s.ppu.dot + n := by
  have hline := hs.line_lt
  have hdot' := h.coherent.dot_lt
  have hposition := h.position_eq
  simp only [position, lineDots, frameLines, frameDots] at *
  omega

/-- After a stretch of `n` dots, the line register holds the line if a line has ended, and what it
held before if none has. -/
def LineWritten (s : Scan) (n : Nat) (s' : Scan) : Prop :=
  s'.bus.get .lcdY =
    if s.ppu.dot + n < lineDots then s.bus.get .lcdY else UInt8.ofNat s'.ppu.line

theorem lineWritten_chunk (h : s.chunk n = ⟨.ok (), s'⟩) : LineWritten s n s' := by
  have hchanges : (s.advance n).bus.ChangesOnly [.interruptFlag, .lcdStatus] s'.bus := by
    have hunaffected := SystemBus.Unaffected.changesOnly (s.advance n).bus
      (List.mem_cons_self : IoRegister.interruptFlag ∈ [.interruptFlag, .lcdStatus])
    have hstatus := chunk_bus_of_advance (hunaffected.mono (by decide)) s n (.refl _ _)
    rwa [h] at hstatus
  have hline : s'.ppu.line = (s.advance n).ppu.line := by
    obtain ⟨-, rfl⟩ := chunk_eq_ok h
    exact (updateMode_position (s.advance n)).2.1
  rw [LineWritten, hchanges.get_eq (by decide), hline, advance]
  dsimp only
  split
  · rfl
  · exact SystemBus.get_set_self _ _ _

/-- One stretch after the other is one stretch. -/
theorem LineWritten.trans (hs : s.Coherent) (hswept : Swept s m s') (hswept' : Swept s' n s'')
    (h : LineWritten s m s') (h' : LineWritten s' n s'') : LineWritten s (m + n) s'' := by
  rw [LineWritten] at h h' ⊢
  rw [h', h]
  by_cases hfirst : s.ppu.dot + m < lineDots
  · obtain ⟨-, hdot⟩ := hswept.within_line hs hfirst
    rw [if_pos hfirst, hdot, Nat.add_assoc]
  · rw [if_neg hfirst, if_neg (show ¬s.ppu.dot + (m + n) < lineDots by omega)]
    split
    · rename_i hrest
      rw [(hswept'.within_line hswept.coherent hrest).1]
    · rfl

/-- **The line register in a tick.** -/
theorem Coherent.lineWritten_tick (h : s.Coherent) (hs : s.tick n = ⟨.ok (), s'⟩) :
    LineWritten s n s' := by
  induction s, n using tick_induction with
  | zero s =>
    rw [tick_zero] at hs
    cases hs
    exact (if_pos h.dot_lt).symm
  | chunk s n hn ih =>
    rw [tick_eq_chunk hn] at hs
    obtain ⟨_, s₁, hchunk, hrest⟩ := Outcome.andThen_eq_ok.1 hs
    have hswept := h.swept_chunk (Nat.min_le_right _ _) hchunk
    have hboth := (lineWritten_chunk hchunk).trans h hswept (hswept.coherent.swept_tick hrest)
      (ih s₁ hswept.coherent hrest)
    rwa [Nat.add_sub_cancel' (Nat.min_le_left _ _)] at hboth

end Scan

namespace Machine

variable {m m' : Machine} {c total : Nat}

/-! ## The line register in a run -/

/-- A line ends in the next step. -/
def endsLine (m : Machine) : Bool :=
  match m.step.answer with
  | .ok cycles => lineDots ≤ m.ppu.dot + cycles
  | .error _ => false

/-- The byte that stands in the line register in place of the line after something has happened,
from the one before, if there was one. -/
def storedLineAfter (m : Machine) (stored : Option UInt8) : Happening → Option UInt8
  | .step =>
    if m.endsLine then none else (Bus.lastStore IoRegister.lcdY.address m.core.stores).or stored
  | .keys _ => stored

theorem storedLineAfter_of_step {stored : Option UInt8} (h : m.step = ⟨.ok c, m'⟩) :
    m.storedLineAfter stored .step =
      if lineDots ≤ m.ppu.dot + c then none
      else (Bus.lastStore IoRegister.lcdY.address m.core.stores).or stored := by
  rw [storedLineAfter, endsLine, h]
  exact if_congr decide_eq_true_iff rfl rfl

/-- The byte that stands in the line register in place of the line after a run: the last that has
been stored there since a line has ended. -/
def storedLine (m : Machine) (stored : Option UInt8) : List Happening → Option UInt8
  | [] => stored
  | x :: run => (m.after x).storedLine (m.storedLineAfter stored x) run

/-- The line register shows the stored byte, or else the line. -/
def ShowsLine (m : Machine) (stored : Option UInt8) : Prop :=
  m.bus.get .lcdY = stored.getD (UInt8.ofNat m.ppu.line)

theorem showsLine_step (hm : m.scan.Coherent) {stored : Option UInt8} (h : m.ShowsLine stored)
    (hs : m.step = ⟨.ok c, m'⟩) : m'.ShowsLine (m.storedLineAfter stored .step) := by
  obtain ⟨s, htick, hppu, hbus⟩ := scan_of_step hs
  have hm' : Scan.Coherent ⟨m.ppu, m.core.step.state.bus⟩ := hm.onBus _
  have hswept := hm'.swept_tick htick
  have hwritten := hm'.lineWritten_tick htick
  rw [Scan.LineWritten] at hwritten
  rw [ShowsLine, hbus.get_eq (by decide), hwritten, storedLineAfter_of_step hs, hppu]
  by_cases hlt : m.ppu.dot + c < lineDots
  · obtain ⟨hline, -⟩ := hswept.within_line hm' hlt
    have hstores := SystemBus.get_replay_plain (r := .lcdY) m.bus m.core.stores (by decide)
    rw [if_pos hlt, if_neg (Nat.not_le.2 hlt), Core.step_bus, hline, Option.getD_or, ← h]
    exact hstores
  · rw [if_neg hlt, if_pos (Nat.not_lt.1 hlt)]
    rfl

/-- **What the line register shows after a run.** -/
theorem showsLine_through (hm : m.scan.Coherent) {stored : Option UInt8} (h : m.ShowsLine stored)
    {run : List Happening} (hrun : m.through run = ⟨.ok total, m'⟩) :
    m'.ShowsLine (m.storedLine stored run) := by
  induction run generalizing m total stored with
  | nil =>
    cases hrun
    exact h
  | cons x run ih =>
    cases x with
    | step =>
      obtain ⟨c, m₁, rest, hs, hrest, -⟩ := through_step_eq_ok.1 hrun
      have hafter : m.after .step = m₁ := by rw [after, hs]
      rw [storedLine, hafter]
      exact ih (settled_of_step hm.line_lt hs).coherent (showsLine_step hm h hs) hrest
    | keys event =>
      have hkeys : (m.applyKeys event).ShowsLine stored :=
        ((SystemBus.applyKeys_changesOnly m.bus event).get_eq (by decide)).trans h
      exact ih (m := m.applyKeys event) (hm.onBus _) hkeys hrun

/-- As long as nothing is stored to it, the line register shows the line. -/
theorem storedLine_eq_none {run : List Happening}
    (h : ∀ v, (IoRegister.lcdY.address, v) ∉ m.runStores (run.map .happening)) :
    m.storedLine none run = none := by
  induction run generalizing m with
  | nil => rfl
  | cons x run ih =>
    have hnow : m.storedLineAfter none x = none := by
      cases x with
      | step =>
        have hlast : Bus.lastStore IoRegister.lcdY.address m.core.stores = none :=
          Bus.lastStore_eq_none fun v hmem ↦ h v (List.mem_append_left _ hmem)
        rw [storedLineAfter, hlast]
        exact ite_self _
      | keys event => rfl
    rw [storedLine, hnow]
    exact ih fun v hmem ↦ h v (List.mem_append_right _ hmem)

/-! ## Telling the truth -/

/-- The line register reads as the line, and the coincidence in the status register goes by what it
holds. -/
def TellsLine (m : Machine) : Prop :=
  (m.bus.read IoRegister.lcdY.address).toNat = m.ppu.line ∧
    (m.bus.get .lcdStatus).toNat.testBit 2 = (m.bus.get .lcdY == m.bus.get .lcdYCompare)

theorem read_lineRegister (hline : m.ppu.line < frameLines) {stored : Option UInt8}
    (h : m.ShowsLine stored) :
    (m.bus.read IoRegister.lcdY.address).toNat = (stored.map UInt8.toNat).getD m.ppu.line := by
  rw [SystemBus.read_register _ (by decide), h]
  cases stored with
  | none => exact UInt8.toNat_ofNat_of_lt' (Nat.lt_trans hline (by decide))
  | some v => rfl

/-- The picture unit that is settled has the coincidence right, so it is the register alone that can
lie. -/
theorem tellsLine_iff (hm : m.scan.Settled) {stored : Option UInt8} (h : m.ShowsLine stored) :
    m.TellsLine ↔ ∀ v ∈ stored, v.toNat = m.ppu.line := by
  have hread := read_lineRegister hm.line_lt h
  have hcoincidence : (m.bus.get .lcdStatus).toNat.testBit 2 =
      ((m.bus.get .lcdYCompare).toNat == m.ppu.line) := hm.testBit_coincidence
  have htells : m.TellsLine ↔ (m.bus.read IoRegister.lcdY.address).toNat = m.ppu.line := by
    refine ⟨And.left, fun hline ↦ ⟨hline, hcoincidence.trans ?_⟩⟩
    rw [SystemBus.read_register _ (by decide)] at hline
    rw [← hline, Bool.eq_iff_iff, beq_iff_eq, beq_iff_eq, UInt8.toNat_inj, eq_comm]
  rw [htells, hread]
  cases stored with
  | none => simp
  | some v => simp

theorem showsLine_assemble {boot rom : Option ByteArray} (hm : assemble boot rom = .ok m) :
    m.ShowsLine none := by
  have hon := SwitchedOn.of_assemble hm
  rw [ShowsLine, hon.bus.get_eq _ (by decide), hon.ppu_eq]
  rfl

/-- **When the line register tells the truth.**  However a machine has been switched on, after a run
with a step in it that succeeds, key events or none, the line register reads as the byte that has
been stored there since a line has ended, or else as the line, and the status register says whether
the line is the one to be told about.  So the two agree unless a byte other than the line has been
stored, and always in a run that stores nothing there. -/
theorem lineRegister_of_run {boot rom : Option ByteArray} (hm : assemble boot rom = .ok m)
    {run : List Happening} (hstep : .step ∈ run) (hrun : m.through run = ⟨.ok total, m'⟩) :
    (m'.bus.read IoRegister.lcdY.address).toNat =
        ((m.storedLine none run).map UInt8.toNat).getD m'.ppu.line ∧
      (m'.bus.get .lcdStatus).toNat.testBit 2 =
        ((m'.bus.get .lcdYCompare).toNat == m'.ppu.line) ∧
      (m'.TellsLine ↔ ∀ v ∈ m.storedLine none run, v.toNat = m'.ppu.line) ∧
      ((∀ v, (IoRegister.lcdY.address, v) ∉ m.runStores (run.map .happening)) →
        m'.TellsLine) := by
  have hcoherent := (runFor_assemble hm).coherent
  have hshows := showsLine_through hcoherent (showsLine_assemble hm) hrun
  have hsettled := settled_through hcoherent.line_lt hrun (Or.inr hstep)
  refine ⟨read_lineRegister hsettled.line_lt hshows, hsettled.testBit_coincidence,
    tellsLine_iff hsettled hshows, fun hstores ↦ ?_⟩
  rw [tellsLine_iff hsettled hshows, storedLine_eq_none hstores]
  exact fun v hv ↦ absurd hv (Option.not_mem_none v)

/-- A program stores 5 to the line register while the first line is drawn. -/
theorem forgedLine :
    ∃ m m₁ m', assemble (some (storeProgram 5 0x44).bytes) none = .ok m ∧
      m.through [.step] = ⟨.ok 8, m₁⟩ ∧ m.runStores [.happening .step] = [] ∧
      m.through [.step, .step] = ⟨.ok 20, m'⟩ ∧
      m.storedLine none [.step, .step] = some 5 ∧ m'.ppu.line = 0 := by
  obtain ⟨m, m₁, m₂, hm, hs₁, hstores, hs₂, hstores'⟩ :=
    storeProgram_steps 5 0x44 (r := .lcdY) rfl (by decide) (by decide)
  have hrun₁ : m.through [.step] = ⟨.ok 8, m₁⟩ := by
    simp only [through, hs₁, Outcome.andThen_ok]
  have hrun₂ : m.through [.step, .step] = ⟨.ok 20, m₂⟩ := by
    simp only [through, hs₁, hs₂, Outcome.andThen_ok]
  have hbeam₁ := (runFor_through (runFor_assemble hm) hrun₁).beam_eq
  have hbeam₂ := (runFor_through (runFor_assemble hm) hrun₂).beam_eq
  refine ⟨m, m₁, m₂, hm, hrun₁, ?_, hrun₂, ?_, hbeam₂.2⟩
  · rw [runStores, actStores, hstores]
    rfl
  · have hafter : m.after .step = m₁ := by rw [after, hs₁]
    have hdot : ¬lineDots ≤ m₁.ppu.dot + 12 := by
      rw [show m₁.ppu.dot = 8 from hbeam₁.1]
      decide
    rw [storedLine, storedLine, storedLine, hafter, storedLineAfter_of_step hs₂, if_neg hdot,
      hstores']
    rfl

/-- The register is true before the store of that program, and false after it. -/
theorem lineRegister_of_run_forged :
    ∃ m m₁ m', assemble (some (storeProgram 5 0x44).bytes) none = .ok m ∧
      m.through [.step] = ⟨.ok 8, m₁⟩ ∧ m₁.TellsLine ∧
      m.through [.step, .step] = ⟨.ok 20, m'⟩ ∧
      (m'.bus.read IoRegister.lcdY.address).toNat = 5 ∧ m'.ppu.line = 0 ∧ ¬m'.TellsLine := by
  obtain ⟨m, m₁, m', hm, hrun₁, hnone, hrun, hstored, hline⟩ := forgedLine
  obtain ⟨-, -, -, htells⟩ := lineRegister_of_run hm List.mem_cons_self hrun₁
  obtain ⟨hread, -, hiff, -⟩ := lineRegister_of_run hm List.mem_cons_self hrun
  rw [hstored] at hread hiff
  refine ⟨m, m₁, m', hm, hrun₁, htells fun v hv ↦ ?_, hrun, hread, hline, fun htrue ↦ ?_⟩
  · exact List.not_mem_nil (hnone ▸ hv)
  · exact absurd ((hiff.1 htrue 5 rfl).trans hline) (by decide)

/-- It is not true that the line register tells the line in every run. -/
theorem not_always_tellsLine :
    ¬∀ (boot rom : Option ByteArray) (m : Machine), assemble boot rom = .ok m →
      ∀ (run : List Happening) (total : Nat) (m' : Machine), .step ∈ run →
        m.through run = ⟨.ok total, m'⟩ → m'.TellsLine := by
  intro hall
  obtain ⟨m, -, m', hm, -, -, hrun, hstored, hline⟩ := forgedLine
  have hcoherent := (runFor_assemble hm).coherent
  have hshows := showsLine_through hcoherent (showsLine_assemble hm) hrun
  have hsettled := settled_through hcoherent.line_lt hrun (Or.inr List.mem_cons_self)
  have htrue := hall _ _ m hm _ 20 m' List.mem_cons_self hrun
  rw [tellsLine_iff hsettled hshows, hstored] at htrue
  exact absurd ((htrue 5 rfl).trans hline) (by decide)

end Machine
end Handheld
