import Handheld.Proofs.Video.Requests

/-!
# When the status interrupt is requested

What the status interrupt is about is a condition of the place of the beam, given the line to be
told about and the selection (`SystemBus.statSource`).  The picture unit looks at it at the ends of
chunks only, three times a line, and requests the interrupt when it finds it true where before it
was false.  Nothing is missed by that: after a tick the interrupt is requested if it was before, or
if at some dot in the tick the condition was true and at the dot before it false
(`Scan.isRequested_lcdStat_tick`).

It is enough to look at one dot, since from a settled unit a tick is as many ticks of one dot.  Such
a tick moves the beam by one place, leaves the condition as a function of the place alone
(`Scan.statSource_chunk`), and compares its value at the new place with that at the old one.
-/

set_option autoImplicit false

namespace Handheld

/-! ## Conditions of the place -/

/-- In the `n` dots after the beam has been at `p`, a condition of its place becomes true. -/
def Rises (condition : Nat → Bool) (p n : Nat) : Prop :=
  ∃ k, 0 < k ∧ k ≤ n ∧ condition ((p + k) % frameDots) = true ∧
    condition ((p + k - 1) % frameDots) = false

theorem not_rises_zero (condition : Nat → Bool) (p : Nat) : ¬Rises condition p 0 :=
  fun ⟨_, hpos, hle, _⟩ ↦ absurd hpos (Nat.not_lt.2 hle)

/-- It does so at the first dot or in the rest. -/
theorem rises_succ {condition : Nat → Bool} {p n : Nat} :
    Rises condition p (n + 1) ↔
      condition ((p + 1) % frameDots) = true ∧ condition (p % frameDots) = false ∨
        Rises condition ((p + 1) % frameDots) n := by
  constructor
  · rintro ⟨k, hpos, hle, htrue, hfalse⟩
    rcases Nat.lt_or_ge 1 k with hlt | hone
    · refine Or.inr ⟨k - 1, by omega, by omega, ?_, ?_⟩
      · rwa [Nat.mod_add_mod, show p + 1 + (k - 1) = p + k by omega]
      · rwa [Nat.add_sub_assoc (by omega), Nat.mod_add_mod,
          show p + 1 + (k - 1 - 1) = p + k - 1 by omega]
    · obtain rfl : k = 1 := by omega
      exact Or.inl ⟨htrue, hfalse⟩
  · rintro (⟨htrue, hfalse⟩ | ⟨k, hpos, hle, htrue, hfalse⟩)
    · exact ⟨1, by omega, by omega, htrue, hfalse⟩
    · refine ⟨k + 1, by omega, by omega, ?_, ?_⟩
      · rwa [Nat.mod_add_mod, show p + 1 + k = p + (k + 1) by omega] at htrue
      · rwa [Nat.add_sub_assoc (by omega), Nat.mod_add_mod,
          show p + 1 + (k - 1) = p + (k + 1) - 1 by omega] at hfalse

/-! ## The condition of the status interrupt -/

namespace SystemBus

/-- The condition of the status interrupt when the beam is at a place in the frame.  The line is the
one to be told about, if bit 6 of the status register selects that, or the mode there is one that is
selected: horizontal blank by bit 3, vertical blank by bit 4, the search of the sprite table by
bit 5. -/
def statSource (bus : SystemBus) (place : Nat) : Bool :=
  let select := (bus.get .lcdStatus).toNat
  let mode := Mode.ofPosition (place / lineDots) (place % lineDots)
  ((bus.get .lcdYCompare).toNat == place / lineDots && select.testBit 6) ||
    ((mode == .hBlank && select.testBit 3) || (mode == .vBlank && select.testBit 4) ||
      (mode == .search && select.testBit 5))

/-- It depends on the upper bits of the status register only, and on the line to be told about. -/
theorem statSource_congr {bus bus' : SystemBus}
    (hline : bus'.get .lcdYCompare = bus.get .lcdYCompare)
    (hselect : ∀ k ∈ [3, 4, 5, 6, 7],
      (bus'.get .lcdStatus).toNat.testBit k = (bus.get .lcdStatus).toNat.testBit k) :
    bus'.statSource = bus.statSource := by
  funext place
  rw [statSource, statSource, hline, hselect 3 (by decide), hselect 4 (by decide),
    hselect 5 (by decide), hselect 6 (by decide)]

theorem ChangesOnly.statSource_eq {registers : List IoRegister} {bus bus' : SystemBus}
    (h : bus.ChangesOnly registers bus') (hr : ∀ r ∈ [.lcdStatus, .lcdYCompare], r ∉ registers) :
    bus'.statSource = bus.statSource :=
  statSource_congr (h.get_eq (hr _ (by decide))) fun k _ ↦ by rw [h.get_eq (hr _ (by decide))]

end SystemBus

namespace Scan

variable {s s' : Scan} {n : Nat}

/-- The coincidence as a comparison of numbers. -/
theorem coincidence_eq (hline : s.ppu.line < frameLines) :
    s.coincidence = ((s.bus.get .lcdYCompare).toNat == s.ppu.line) := by
  have hbyte : s.ppu.line % 2 ^ 8 = s.ppu.line := by
    simp only [frameLines] at hline
    omega
  rw [coincidence, Bool.eq_iff_iff, beq_iff_eq, beq_iff_eq, ← UInt8.toNat_inj, UInt8.toNat_ofNat',
    hbyte, eq_comm]

/-- The bit that selects a mode. -/
theorem modeSelected_eq (select : UInt8) (mode : Mode) :
    modeSelected select mode =
      ((mode == .hBlank && select.toNat.testBit 3) || (mode == .vBlank && select.toNat.testBit 4) ||
        (mode == .search && select.toNat.testBit 5)) := by
  cases mode <;> simp [modeSelected, beq_eq_decide]

/-- On a unit whose mode is that of its position, the condition is that of the place. -/
theorem Coherent.statCondition_eq (h : s.Coherent) :
    s.statCondition = s.bus.statSource s.position := by
  have hdot := h.dot_lt
  have hplace : s.position / lineDots = s.ppu.line ∧ s.position % lineDots = s.ppu.dot := by
    simp only [position, lineDots] at *
    omega
  rw [statCondition, coincidence_eq h.line_lt, modeSelected_eq, SystemBus.statSource, hplace.1,
    hplace.2, ← h.mode_eq]

/-- A settled unit shows the coincidence in the status register. -/
theorem Settled.testBit_coincidence (h : s.Settled) :
    (s.bus.get .lcdStatus).toNat.testBit 2 = ((s.bus.get .lcdYCompare).toNat == s.ppu.line) :=
  h.coincidenceBit.trans (coincidence_eq h.line_lt)

/-- It knows the condition at the place where it is. -/
theorem Settled.statLine_eq_statSource (h : s.Settled) :
    s.ppu.statLine = s.bus.statSource s.position :=
  h.statLine_eq.trans h.coherent.statCondition_eq

/-- The picture unit leaves the condition alone. -/
theorem statSource_chunk (h : s.chunk n = ⟨.ok (), s'⟩) :
    s'.bus.statSource = s.bus.statSource := by
  obtain ⟨-, rfl⟩ := chunk_eq_ok h
  have hmoved : s.bus.ChangesOnly [.interruptFlag, .lcdY] (s.advance n).updateMode.state.bus := by
    have hunaffected := SystemBus.Unaffected.changesOnly s.bus
      (List.mem_cons_self : IoRegister.interruptFlag ∈ [.interruptFlag, .lcdY])
    exact updateMode_bus_of (hunaffected.mono (List.nil_subset _)) _
      (advance_bus_of (hunaffected.mono (by decide)) s n (.refl _ _))
  obtain ⟨hstatus, hcompare⟩ := get_updateStatus (s.advance n).updateMode.state
  rw [← hmoved.statSource_eq (by decide)]
  refine SystemBus.statSource_congr hcompare ?_
  rw [hstatus]
  exact (status_bits _ _ _).2.2

/-! ## Ticks -/

/-- One dot compares the condition at the new place with that at the old one. -/
theorem Settled.isRequested_lcdStat_dot (h : s.Settled) (hs : s.tick 1 = ⟨.ok (), s'⟩) :
    s'.bus.isRequested .lcdStat =
      (s.bus.isRequested .lcdStat ||
        (s.bus.statSource ((s.position + 1) % frameDots) && !s.bus.statSource s.position)) := by
  have hsettled := h.of_tick hs
  have hplace := (h.coherent.swept_tick hs).position_eq
  rw [tick_one] at hs
  rw [isRequested_lcdStat_chunk hs, h.statLine_eq_statSource, hsettled.statLine_eq_statSource,
    hplace, statSource_chunk hs]

theorem Settled.isRequested_lcdStat_tickDots (h : s.Settled) (hs : s.tickDots n = ⟨.ok (), s'⟩) :
    s'.bus.isRequested .lcdStat = true ↔
      s.bus.isRequested .lcdStat = true ∨ Rises s.bus.statSource s.position n := by
  induction n generalizing s with
  | zero =>
    cases hs
    simp only [not_rises_zero, or_false]
  | succ n ih =>
    obtain ⟨_, s₁, hdot, hrest⟩ := Outcome.andThen_eq_ok.1 hs
    have hplace := (h.coherent.swept_tick hdot).position_eq
    have hsame : s₁.bus.statSource = s.bus.statSource := statSource_chunk (tick_one s ▸ hdot)
    rw [ih (h.of_tick hdot) hrest, h.isRequested_lcdStat_dot hdot, hplace, hsame, rises_succ,
      Nat.mod_eq_of_lt h.coherent.position_lt]
    simp only [Bool.or_eq_true, Bool.and_eq_true, Bool.not_eq_true', or_assoc]

/-- **The status interrupt is requested at the rising edges of its condition, and nowhere else.**
From a settled unit, which knows what the condition is at the place of the beam, after a tick of `n`
dots that succeeds the interrupt is requested if it was before, or if at one of the `n` dots the
condition was true and at the dot before it was not. -/
theorem isRequested_lcdStat_tick (h : s.Settled) (hs : s.tick n = ⟨.ok (), s'⟩) :
    s.ppu.statLine = s.bus.statSource s.position ∧
      (s'.bus.isRequested .lcdStat = true ↔
        s.bus.isRequested .lcdStat = true ∨
          ∃ k, 0 < k ∧ k ≤ n ∧ s.bus.statSource ((s.position + k) % frameDots) = true ∧
            s.bus.statSource ((s.position + k - 1) % frameDots) = false) := by
  rw [tick_eq_tickDots h] at hs
  exact ⟨h.statLine_eq_statSource, h.isRequested_lcdStat_tickDots hs⟩

/-- After a whole frame the beam is back on the line to be told about, which it had left in the
meantime. -/
theorem isRequested_lcdStat_tick_topOfFrame :
    ∃ s', (topOfFrame .blank).Settled ∧ (topOfFrame .blank).tick frameDots = ⟨.ok (), s'⟩ ∧
      (topOfFrame .blank).bus.isRequested .lcdStat = false ∧
      s'.bus.isRequested .lcdStat = true := by
  have hget {r : IoRegister} (hr : r ≠ .lcdStatus) : (topOfFrame .blank).bus.get r = 0 :=
    (SystemBus.get_set_of_ne _ _ hr).trans (SystemBus.isBlank_blank.peek_eq _)
  have hstatus : (topOfFrame .blank).bus.get .lcdStatus = 0x46 := SystemBus.get_set_self _ _ _
  have hsmall : ¬(topOfFrame .blank).bus.lcdControl.TallSprites := by
    rw [SystemBus.lcdControl, hget (by decide)]
    decide
  have hsettled := settled_topOfFrame SystemBus.isBlank_blank
  have hok := tick_eq_ok hsmall frameDots
  refine ⟨_, hsettled, hok, ?_, (isRequested_lcdStat_tick hsettled hok).2.2 (Or.inr ?_)⟩
  · rw [SystemBus.isRequested, hget (by decide)]
    decide
  · refine ⟨frameDots, by decide, Nat.le_refl _, ?_, ?_⟩ <;>
      rw [SystemBus.statSource, hstatus, hget (by decide)] <;> decide

end Scan
end Handheld
