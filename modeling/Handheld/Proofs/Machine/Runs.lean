import Handheld.Proofs.Machine.BootProgram
import Handheld.Proofs.Machine.Requests
import Handheld.Proofs.Video.StatusEdges
import Handheld.Proofs.Video.Timeline

/-!
# The picture unit in the life of a machine

`Machine.through` lets things happen to a machine as long as its steps succeed, and counts the
cycles that these took.  The picture unit is the first of the devices that follow a step of the
processor, so whatever the program has done to its registers by then, it has had a tick of at least
four dots to set them right (`Machine.settled_of_step`).  The timer and the keys, which come after
it, leave these registers alone.  So from the first step on the picture unit is settled
(`Machine.settled_of_run`).
-/

set_option autoImplicit false

namespace Handheld

/-! ## Other changes of the bus -/

/-- A settled unit stays settled when its registers and the line to be told about are left alone. -/
theorem Scan.Settled.onBus {s : Scan} (h : s.Settled) {registers : List IoRegister}
    {bus : SystemBus} (hbus : s.bus.ChangesOnly registers bus)
    (hr : ∀ r ∈ [.lcdStatus, .lcdYCompare], r ∉ registers) : Scan.Settled ⟨s.ppu, bus⟩ := by
  have hstatus : bus.get .lcdStatus = s.bus.get .lcdStatus := hbus.get_eq (hr _ (by decide))
  have hcoincidence : Scan.coincidence ⟨s.ppu, bus⟩ = s.coincidence := by
    rw [Scan.coincidence, hbus.get_eq (hr _ (by decide)), Scan.coincidence]
  refine ⟨h.dot_lt, h.line_lt, h.mode_eq, ?_, ?_, ?_⟩
  · rw [hstatus]
    exact h.modeBits
  · rw [hstatus, hcoincidence]
    exact h.coincidenceBit
  · rw [Scan.statCondition, hstatus, hcoincidence]
    exact h.statLine_eq

namespace Machine

variable {m m₁ m' : Machine} {c total : Nat}

/-! ## Runs that succeed -/

/-- The machine through some happenings, and the cycles that its steps took; the first step that
fails ends it. -/
def through (m : Machine) : List Happening → Outcome Machine Nat
  | [] => ⟨.ok 0, m⟩
  | .step :: run =>
    m.step.andThen fun cycles m ↦ (m.through run).andThen fun total m ↦ ⟨.ok (cycles + total), m⟩
  | .keys event :: run => (m.applyKeys event).through run

theorem through_step_eq_ok {run : List Happening} :
    m.through (.step :: run) = ⟨.ok total, m'⟩ ↔
      ∃ c m₁ rest, m.step = ⟨.ok c, m₁⟩ ∧ m₁.through run = ⟨.ok rest, m'⟩ ∧ total = c + rest := by
  simp only [through, Outcome.andThen_eq_ok, Outcome.mk.injEq, Except.ok.injEq]
  constructor
  · rintro ⟨c, m₁, hs, rest, m₂, hrest, rfl, rfl⟩
    exact ⟨c, m₁, rest, hs, hrest, rfl⟩
  · rintro ⟨c, m₁, rest, hs, hrest, rfl⟩
    exact ⟨c, m₁, hs, rest, m', hrest, rfl, rfl⟩

/-- A run in two parts succeeds when both parts do. -/
theorem through_append_eq_ok {before rest : List Happening} :
    m.through (before ++ rest) = ⟨.ok total, m'⟩ ↔
      ∃ t m₁ left, m.through before = ⟨.ok t, m₁⟩ ∧ m₁.through rest = ⟨.ok left, m'⟩ ∧
        total = t + left := by
  induction before generalizing m total with
  | nil =>
    constructor
    · intro h
      exact ⟨0, m, total, rfl, h, (Nat.zero_add total).symm⟩
    · rintro ⟨t, m₁, left, hbefore, hrest, rfl⟩
      cases hbefore
      rw [Nat.zero_add]
      exact hrest
  | cons x before ih =>
    cases x with
    | step =>
      rw [List.cons_append, through_step_eq_ok]
      constructor
      · rintro ⟨c, m₁, others, hs, hothers, rfl⟩
        obtain ⟨t, m₂, left, hbefore, hrest, rfl⟩ := ih.1 hothers
        have hfirst := through_step_eq_ok.2 ⟨c, m₁, t, hs, hbefore, rfl⟩
        exact ⟨c + t, m₂, left, hfirst, hrest, (Nat.add_assoc c t left).symm⟩
      · rintro ⟨t, m₂, left, hfirst, hrest, rfl⟩
        obtain ⟨c, m₁, t', hs, hbefore, rfl⟩ := through_step_eq_ok.1 hfirst
        have hothers := ih.2 ⟨t', m₂, left, hbefore, hrest, rfl⟩
        exact ⟨c, m₁, t' + left, hs, hothers, Nat.add_assoc c t' left⟩
    | keys event => exact ih

/-! ## The picture unit in a step -/

/-- In a step that succeeds the picture unit ticks on what the processor has left, and after it only
the timer changes anything. -/
theorem scan_of_step (h : m.step = ⟨.ok c, m'⟩) :
    ∃ s, Scan.tick ⟨m.ppu, m.core.step.state.bus⟩ c = ⟨.ok (), s⟩ ∧ m'.ppu = s.ppu ∧
      s.bus.ChangesOnly (.interruptFlag :: Timer.registers) m'.bus := by
  obtain ⟨-, hcatch⟩ := step_eq_ok.1 h
  obtain ⟨s, htick, rfl⟩ := catchUp_eq_ok.1 hcatch
  exact ⟨s, htick, rfl, Timer.tick_changesOnly _ _ _⟩

/-- **After a step that succeeds the picture unit is settled**, whatever its registers were. -/
theorem settled_of_step (hline : m.ppu.line < frameLines) (h : m.step = ⟨.ok c, m'⟩) :
    m'.scan.Settled := by
  obtain ⟨s, htick, hppu, hbus⟩ := scan_of_step h
  have hsettled := Scan.settled_of_tick hline (Nat.ne_of_gt (step_pos (congrArg _ h))) htick
  rw [scan, hppu]
  exact hsettled.onBus hbus (by decide)

/-- A key event leaves it settled. -/
theorem settled_applyKeys (h : m.scan.Settled) (event : InputEvent) :
    (m.applyKeys event).scan.Settled :=
  h.onBus (SystemBus.applyKeys_changesOnly m.bus event) (by decide)

/-- So it is after a run in which there is a step, or if it was before. -/
theorem settled_through (hline : m.ppu.line < frameLines) {run : List Happening}
    (hrun : m.through run = ⟨.ok total, m'⟩) (hsettles : m.scan.Settled ∨ .step ∈ run) :
    m'.scan.Settled := by
  induction run generalizing m total with
  | nil =>
    cases hrun
    exact hsettles.resolve_right List.not_mem_nil
  | cons x run ih =>
    cases x with
    | step =>
      obtain ⟨c, m₁, rest, hs, hrest, -⟩ := through_step_eq_ok.1 hrun
      have hsettled := settled_of_step hline hs
      exact ih hsettled.line_lt hrest (Or.inl hsettled)
    | keys event =>
      have hstep : .step ∈ .keys event :: run → .step ∈ run := fun hmem ↦
        (List.mem_cons.1 hmem).resolve_left Happening.noConfusion
      exact ih (m := m.applyKeys event) hline hrun
        (hsettles.imp (fun h ↦ settled_applyKeys h event) hstep)

/-- The picture unit keeps step with the processor. -/
theorem runFor_step {dots : Nat} (h : m.scan.RunFor dots) (hs : m.step = ⟨.ok c, m'⟩) :
    m'.scan.RunFor (dots + c) := by
  obtain ⟨s, htick, hppu, -⟩ := scan_of_step hs
  rw [scan, hppu]
  exact ((h.onBus m.core.step.state.bus).tick htick).onBus _

theorem runFor_steps {dots k : Nat} (h : m.scan.RunFor dots)
    (hsteps : m.steps k = ⟨.ok total, m'⟩) : m'.scan.RunFor (dots + total) := by
  induction k generalizing total m' with
  | zero =>
    cases hsteps
    exact h
  | succ k ih =>
    obtain ⟨t, m₁, c, hbefore, hs, rfl⟩ := steps_succ_eq_ok.1 hsteps
    rw [← Nat.add_assoc]
    exact runFor_step (ih hbefore) hs

theorem runFor_through {dots : Nat} (h : m.scan.RunFor dots) {run : List Happening}
    (hrun : m.through run = ⟨.ok total, m'⟩) : m'.scan.RunFor (dots + total) := by
  induction run generalizing m total dots with
  | nil =>
    cases hrun
    exact h
  | cons x run ih =>
    cases x with
    | step =>
      obtain ⟨c, m₁, rest, hs, hrest, rfl⟩ := through_step_eq_ok.1 hrun
      rw [← Nat.add_assoc]
      exact ih (runFor_step h hs) hrest
    | keys event => exact ih (h.onBus (m.bus.applyKeys event)) hrun

theorem runFor_assemble {boot rom : Option ByteArray} (hm : assemble boot rom = .ok m) :
    m.scan.RunFor 0 := by
  rw [scan, (SwitchedOn.of_assemble hm).ppu_eq]
  exact .start _

/-! ## From the moment it is switched on -/

/-- **The picture unit is settled after every step.**  However a machine has been switched on, and
whatever its program has done to the status register and to the line to be told about, after a run
with a step in it that succeeds, key events or none, the picture unit and its registers agree: the
position is in the frame, the mode is that of the position and is shown in the status register, so
is the coincidence, and the condition of the status interrupt is that of the sources selected. -/
theorem settled_of_run {boot rom : Option ByteArray} (hm : assemble boot rom = .ok m)
    {run : List Happening} (hstep : .step ∈ run) (hrun : m.through run = ⟨.ok total, m'⟩) :
    m'.scan.Settled ∧
      (m'.bus.get .lcdStatus).toNat.testBit 2 =
        ((m'.bus.get .lcdYCompare).toNat == m'.ppu.line) ∧
      m'.ppu.statLine = m'.bus.statSource m'.scan.position := by
  have hsettled := settled_through (runFor_assemble hm).coherent.line_lt hrun (Or.inr hstep)
  exact ⟨hsettled, hsettled.testBit_coincidence, hsettled.statLine_eq_statSource⟩

/-- A program stores all ones to the status register while the sprite table is searched; by the end
of the step the mode is shown again. -/
theorem settled_of_run_onesStored :
    ∃ m m₁ m', assemble (some (storeProgram 0xFF 0x41).bytes) none = .ok m ∧
      m.step = ⟨.ok 8, m₁⟩ ∧ m₁.core.step.state.bus.get .lcdStatus = 0xFF ∧
      m.through [.step, .step, .keys ⟨.buttons, 1, true⟩] = ⟨.ok 20, m'⟩ ∧
      m'.scan.Settled ∧ m'.bus.get .lcdStatus &&& 3 = 2 := by
  obtain ⟨m, m₁, m₂, hm, hs₁, -, hs₂, hstores⟩ :=
    storeProgram_steps 0xFF 0x41 (r := .lcdStatus) rfl (by decide) (by decide)
  have hrun : m.through [.step, .step, .keys ⟨.buttons, 1, true⟩] =
      ⟨.ok 20, m₂.applyKeys ⟨.buttons, 1, true⟩⟩ := by
    simp only [through, hs₁, hs₂, Outcome.andThen_ok]
  obtain ⟨hsettled, -, -⟩ := settled_of_run hm List.mem_cons_self hrun
  obtain ⟨hdot, hline⟩ := (runFor_through (runFor_assemble hm) hrun).beam_eq
  refine ⟨m, m₁, _, hm, hs₁, ?_, hrun, hsettled, ?_⟩
  · rw [Core.step_bus, hstores]
    show (m₁.bus.write IoRegister.lcdStatus.address 0xFF).get .lcdStatus = 0xFF
    rw [SystemBus.write_plain _ _ (by decide), SystemBus.get_set_self]
  · refine hsettled.modeBits.trans ?_
    rw [hsettled.mode_eq, hdot, hline]
    rfl

end Machine
end Handheld
