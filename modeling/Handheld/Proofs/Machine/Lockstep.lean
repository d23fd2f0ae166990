import Handheld.Proofs.Machine.ReadOnly
import Handheld.Proofs.Machine.Runs
import Handheld.Proofs.Machine.TimerRate
import Handheld.Proofs.Timer.Ticks

/-!
# Processor, picture unit and divider in lockstep

Whatever a program does, the picture unit and the divider of a machine are where the cycles of its
steps have taken them.  For the picture unit this is `Scan.RunFor`, which nothing that happens on
the bus disturbs.  The divider can be written, and a store to it has two effects: the register is
zero at once, and a note is left by which the timer forgets, when it next runs, the cycles it had
left over.  The timer runs at the end of the very step that stores, and counts the cycles of that
step; so the count starts anew before that step, not after it.

`Timer.DividesFrom` says that the divider has come so far in so many cycles.  A tick adds its cycles
to them, unless there is a note, and then they are the cycles of the tick (`Timer.DividesFrom.tick`,
`Timer.dividesFrom_tick_of_restarted`).  What the stores of a step leave is either the divider as it
was or a divider that starts anew (`SystemBus.Restarted`), and the picture unit, which is next, does
not meddle with it.
-/

set_option autoImplicit false

namespace Handheld

/-! ## Stores to the divider -/

namespace SystemBus

/-- Some of the stores is to the divider. -/
def ResetsDivider (stores : List (UInt16 × UInt8)) : Prop :=
  ∃ v, (IoRegister.divider.address, v) ∈ stores

theorem resetsDivider_append {stores stores' : List (UInt16 × UInt8)} :
    ResetsDivider (stores ++ stores') ↔ ResetsDivider stores ∨ ResetsDivider stores' := by
  simp only [ResetsDivider, List.mem_append, exists_or]

/-- The divider has been written: it is zero, and the timer is to forget what it had left over. -/
structure Restarted (bus : SystemBus) : Prop where
  divider_eq : bus.get .divider = 0
  noted : bus.dividerReset = true

theorem dividerReset_copySprites (bus : SystemBus) (page : UInt8) (n : Nat) :
    (bus.copySprites page n).dividerReset = bus.dividerReset := by
  rw [copySprites_eq]

theorem dividerReset_replace (bus : SystemBus) (a : UInt16) (v : UInt8) :
    (bus.replace a v).dividerReset = bus.dividerReset := by
  rw [replace]
  split
  · split <;> rfl
  · rfl

/-- A store to another address leaves the note as it is. -/
theorem dividerReset_write_of_ne (bus : SystemBus) {a : UInt16} (v : UInt8)
    (h : a ≠ IoRegister.divider.address) : (bus.write a v).dividerReset = bus.dividerReset := by
  rw [write, if_neg h]
  split
  · rfl
  split
  · rfl
  split
  · rfl
  split
  · exact dividerReset_copySprites _ _ _
  split
  · dsimp only
    split <;> rfl
  · exact dividerReset_replace bus a v

theorem restarted_write_divider (bus : SystemBus) (v : UInt8) :
    (bus.write IoRegister.divider.address v).Restarted :=
  ⟨get_set_self bus .divider 0, rfl⟩

theorem Restarted.write {bus : SystemBus} (h : bus.Restarted) (a : UInt16) (v : UInt8) :
    (bus.write a v).Restarted := by
  by_cases ha : a = IoRegister.divider.address
  · rw [ha]
    exact bus.restarted_write_divider v
  · refine ⟨?_, ?_⟩
    · rw [get_write_of_ne bus v (Ne.symm ha), h.divider_eq]
    · rw [dividerReset_write_of_ne bus v ha, h.noted]

/-- Stores of which some is to the divider leave it started anew, whatever comes after. -/
theorem restarted_replay (bus : SystemBus) {stores : List (UInt16 × UInt8)}
    (h : bus.Restarted ∨ ResetsDivider stores) : (Bus.replay bus stores).Restarted := by
  induction stores generalizing bus with
  | nil => exact h.resolve_right fun ⟨v, hmem⟩ ↦ List.not_mem_nil hmem
  | cons store stores ih =>
    obtain ⟨a, v⟩ := store
    refine ih (bus.write a v) ?_
    rcases h with h | ⟨w, hmem⟩
    · exact Or.inl (h.write a v)
    · rcases List.mem_cons.1 hmem with heq | hmem
      · cases heq
        exact Or.inl (bus.restarted_write_divider _)
      · exact Or.inr ⟨w, hmem⟩

/-- Other stores have nothing to do with it. -/
theorem divider_replay (bus : SystemBus) {stores : List (UInt16 × UInt8)}
    (h : ¬ResetsDivider stores) :
    (Bus.replay bus stores).get .divider = bus.get .divider ∧
      (Bus.replay bus stores).dividerReset = bus.dividerReset := by
  induction stores generalizing bus with
  | nil => exact ⟨rfl, rfl⟩
  | cons store stores ih =>
    obtain ⟨a, v⟩ := store
    have hne : a ≠ IoRegister.divider.address := by
      rintro rfl
      exact h ⟨v, List.mem_cons_self⟩
    obtain ⟨hget, hnote⟩ := ih (bus.write a v) fun ⟨w, hmem⟩ ↦ h ⟨w, List.mem_cons_of_mem _ hmem⟩
    exact ⟨hget.trans (get_write_of_ne bus v (Ne.symm hne)),
      hnote.trans (dividerReset_write_of_ne bus v hne)⟩

end SystemBus

/-! ## The picture unit -/

namespace Scan

theorem dividerReset_chunk (s : Scan) (dots : Nat) :
    (s.chunk dots).state.bus.dividerReset = s.bus.dividerReset := by
  have hadvance : (s.advance dots).bus.dividerReset = s.bus.dividerReset := by
    rw [advance]
    dsimp only
    split <;> rfl
  have hmoved : (s.advance dots).updateMode.state.bus.dividerReset = s.bus.dividerReset := by
    obtain ⟨screen, hstate⟩ := updateMode_state (s.advance dots)
    rw [hstate, ← hadvance]
    dsimp only
    split <;> rfl
  rw [chunk]
  split
  · rw [← hmoved, updateStatus]
    dsimp only
    split <;> rfl
  · exact hmoved

/-- The picture unit does not take the note that the divider has been written. -/
theorem dividerReset_tick (s : Scan) (dots : Nat) :
    (s.tick dots).state.bus.dividerReset = s.bus.dividerReset := by
  induction s, dots using tick_induction with
  | zero s => rw [tick_zero]
  | chunk s dots hdots ih =>
    have hchunk := s.dividerReset_chunk (min dots (dotsToBoundary s.ppu.dot))
    rw [tick_eq_chunk hdots]
    generalize s.chunk (min dots (dotsToBoundary s.ppu.dot)) = done at hchunk ⊢
    rcases done with ⟨e | ⟨⟩, s'⟩
    · exact hchunk
    · exact (ih s').trans hchunk

theorem get_divider_tick (s : Scan) (dots : Nat) :
    (s.tick dots).state.bus.get .divider = s.bus.get .divider :=
  (s.tick_changesOnly dots).get_eq (by decide)

end Scan

/-! ## The divider in a tick -/

namespace Timer

variable {timer : Timer} {bus : SystemBus} {start cycles n : Nat}

/-- The divider has come so far in so many cycles, from `start` with nothing left over. -/
structure DividesFrom (start cycles : Nat) (timer : Timer) (bus : SystemBus) : Prop where
  divider_eq : (bus.get .divider).toNat = (start + cycles / dividerPeriod) % 256
  left_eq : timer.dividerCycles = cycles % dividerPeriod
  quiet : bus.dividerReset = false

theorem toNat_add_ofNat (v : UInt8) (n : Nat) :
    (v + UInt8.ofNat n).toNat = (v.toNat + n) % 256 := by
  rw [UInt8.toNat_add, UInt8.toNat_ofNat', Nat.add_mod_mod]

/-- The cycles of a tick are added. -/
theorem DividesFrom.tick (h : DividesFrom start cycles timer bus) (n : Nat) :
    DividesFrom start (cycles + n) (timer.tick bus n).1 (timer.tick bus n).2 := by
  have hleft : timer.dividerLeft bus = cycles % dividerPeriod := by
    rw [dividerLeft, h.quiet, if_neg Bool.false_ne_true, h.left_eq]
  refine ⟨?_, ?_, timer.dividerReset_tick bus n⟩
  · rw [get_divider_tick, hleft, toNat_add_ofNat, h.divider_eq, Nat.mod_add_mod, Nat.add_assoc,
      div_add_div _ _ (by decide)]
  · rw [tick_fst, hleft]
    exact Nat.mod_add_mod _ _ _

/-- If the divider has been written, they are all that there is. -/
theorem dividesFrom_tick_of_restarted (h : bus.Restarted) (n : Nat) :
    DividesFrom 0 n (timer.tick bus n).1 (timer.tick bus n).2 := by
  have hleft : timer.dividerLeft bus = 0 := by
    rw [dividerLeft, h.noted, if_pos rfl]
  refine ⟨?_, ?_, timer.dividerReset_tick bus n⟩
  · rw [get_divider_tick, hleft, toNat_add_ofNat, h.divider_eq, Nat.zero_add]
    rfl
  · rw [tick_fst, hleft, Nat.zero_add]

end Timer

namespace Machine

variable {m m' : Machine} {c start cycles total : Nat}

open SystemBus (ResetsDivider)

/-! ## The divider in a run -/

/-- A step that does not store to the divider adds its cycles. -/
theorem dividesFrom_step (h : Timer.DividesFrom start cycles m.timer m.bus)
    (hs : m.step = ⟨.ok c, m'⟩) (hno : ¬ResetsDivider m.core.stores) :
    Timer.DividesFrom start (cycles + c) m'.timer m'.bus := by
  obtain ⟨bus, hbus, hbus', htimer'⟩ := timer_of_step hs
  obtain rfl : _ = bus := Option.some.inj ((timerBus_of_step hs).symm.trans hbus)
  obtain ⟨hget, hnote⟩ := m.bus.divider_replay hno
  rw [hbus', htimer']
  refine Timer.DividesFrom.tick ⟨?_, h.left_eq, ?_⟩ c
  · rw [Scan.get_divider_tick, Core.step_bus, ← h.divider_eq]
    exact congrArg UInt8.toNat hget
  · rw [Scan.dividerReset_tick, Core.step_bus, ← h.quiet]
    exact hnote

/-- After one that does, its cycles are all that there is, whatever came before. -/
theorem dividesFrom_step_of_resets (hs : m.step = ⟨.ok c, m'⟩)
    (hresets : ResetsDivider m.core.stores) : Timer.DividesFrom 0 c m'.timer m'.bus := by
  obtain ⟨bus, hbus, hbus', htimer'⟩ := timer_of_step hs
  obtain rfl : _ = bus := Option.some.inj ((timerBus_of_step hs).symm.trans hbus)
  have hrestarted := m.bus.restarted_replay (Or.inr hresets)
  rw [hbus', htimer']
  refine Timer.dividesFrom_tick_of_restarted ⟨?_, ?_⟩ c
  · rw [Scan.get_divider_tick, Core.step_bus]
    exact hrestarted.divider_eq
  · rw [Scan.dividerReset_tick, Core.step_bus]
    exact hrestarted.noted

theorem dividesFrom_applyKeys (h : Timer.DividesFrom start cycles m.timer m.bus)
    (event : InputEvent) :
    Timer.DividesFrom start cycles (m.applyKeys event).timer (m.applyKeys event).bus := by
  refine ⟨?_, h.left_eq, ?_⟩
  · rw [← h.divider_eq]
    exact congrArg UInt8.toNat
      ((SystemBus.applyKeys_changesOnly m.bus event).get_eq (by decide))
  · exact SystemBus.applyKeys_of (Timer.unaffected_dividerReset _) m.bus event h.quiet

/-- **The divider in a run that does not store to it.** -/
theorem dividesFrom_through (h : Timer.DividesFrom start cycles m.timer m.bus)
    {run : List Happening} (hrun : m.through run = ⟨.ok total, m'⟩)
    (hno : ¬ResetsDivider (m.runStores (run.map .happening))) :
    Timer.DividesFrom start (cycles + total) m'.timer m'.bus := by
  induction run generalizing m total cycles with
  | nil =>
    cases hrun
    exact h
  | cons x run ih =>
    rw [List.map_cons, runStores, SystemBus.resetsDivider_append, not_or] at hno
    obtain ⟨hnow, hlater⟩ := hno
    cases x with
    | step =>
      obtain ⟨c, m₁, rest, hs, hrest, rfl⟩ := through_step_eq_ok.1 hrun
      have hafter : m.afterAct (.happening .step) = m₁ := by rw [afterAct, after, hs]
      rw [hafter] at hlater
      rw [← Nat.add_assoc]
      exact ih (dividesFrom_step h hs hnow) hrest hlater
    | keys event => exact ih (m := m.applyKeys event) (dividesFrom_applyKeys h event) hrun hlater

theorem dividesFrom_assemble {boot rom : Option ByteArray} (hm : assemble boot rom = .ok m) :
    Timer.DividesFrom 0x18 0 m.timer m.bus := by
  have hon := SwitchedOn.of_assemble hm
  refine ⟨?_, ?_, ?_⟩
  · rw [hon.bus.get_eq _ (by decide)]
    rfl
  · rw [hon.timer_eq]
    rfl
  · exact hon.bus.dividerReset_eq

/-- **Lockstep.**  However a machine has been switched on, after a run of steps that succeed, key
events or none, the picture unit is where the cycles of the steps have taken it, and so is the
divider.  If nothing has been stored to the divider, it has gone up from the value it starts with,
once in each of its periods.  And each step of the run takes a multiple of four cycles, from four to
twenty-four; if it is the last that stores to the divider, then the divider has gone up from zero
with its cycles and those of all the steps after it. -/
theorem lockstep_of_run {boot rom : Option ByteArray} (hm : assemble boot rom = .ok m)
    {run : List Happening} (hrun : m.through run = ⟨.ok total, m'⟩) :
    (m'.ppu.line = total / lineDots % frameLines ∧ m'.ppu.dot = total % lineDots ∧
        m'.ppu.frameCount = (total + Scan.blankDots) / frameDots) ∧
      (¬ResetsDivider (m.runStores (run.map .happening)) →
        (m'.bus.get .divider).toNat = (0x18 + total / 256) % 256) ∧
      ∀ before rest, run = before ++ .step :: rest →
        ∃ t m₁ c m₂ left, m.through before = ⟨.ok t, m₁⟩ ∧ m₁.step = ⟨.ok c, m₂⟩ ∧
          m₂.through rest = ⟨.ok left, m'⟩ ∧ total = t + (c + left) ∧
          (c % 4 = 0 ∧ 4 ≤ c ∧ c ≤ 24) ∧
          (ResetsDivider m₁.core.stores →
            ¬ResetsDivider (m₂.runStores (rest.map .happening)) →
              (m'.bus.get .divider).toNat = (c + left) / 256 % 256) := by
  have hbeam := runFor_through (runFor_assemble hm) hrun
  rw [Nat.zero_add] at hbeam
  obtain ⟨hdot, hline⟩ := hbeam.beam_eq
  refine ⟨⟨hline, hdot, hbeam.frameCount_eq⟩, fun hno ↦ ?_, ?_⟩
  · have hdivides := (dividesFrom_through (dividesFrom_assemble hm) hrun hno).divider_eq
    rwa [Nat.zero_add] at hdivides
  · rintro before rest rfl
    obtain ⟨t, m₁, _, hbefore, hlater, rfl⟩ := through_append_eq_ok.1 hrun
    obtain ⟨c, m₂, left, hs, hrest, rfl⟩ := through_step_eq_ok.1 hlater
    refine ⟨t, m₁, c, m₂, left, hbefore, hs, hrest, rfl, step_range hs, fun hresets hno ↦ ?_⟩
    have hdivides := dividesFrom_through (dividesFrom_step_of_resets hs hresets) hrest hno
    rw [hdivides.divider_eq, Nat.zero_add]
    rfl

/-- A program stores to the divider in its second step.  Before that the divider stands where it
started, after it at zero. -/
theorem lockstep_of_run_dividerStored :
    ∃ m m₁ m', assemble (some (storeProgram 0x55 0x04).bytes) none = .ok m ∧
      m.through [.step] = ⟨.ok 8, m₁⟩ ∧ (m₁.bus.get .divider).toNat = 0x18 ∧
      m.through [.step, .step, .keys ⟨.buttons, 1, true⟩] = ⟨.ok 20, m'⟩ ∧
      ResetsDivider m₁.core.stores ∧ m'.ppu.dot = 20 ∧ (m'.bus.get .divider).toNat = 0 := by
  obtain ⟨m, m₁, m₂, hm, hs₁, hnone, hs₂, hstores⟩ :=
    storeProgram_steps 0x55 0x04 (r := .divider) rfl (by decide) (by decide)
  have hrun₁ : m.through [.step] = ⟨.ok 8, m₁⟩ := by
    simp only [through, hs₁, Outcome.andThen_ok]
  have hrun : m.through [.step, .step, .keys ⟨.buttons, 1, true⟩] =
      ⟨.ok 20, m₂.applyKeys ⟨.buttons, 1, true⟩⟩ := by
    simp only [through, hs₁, hs₂, Outcome.andThen_ok]
  have hresets : ResetsDivider m₁.core.stores := ⟨0x55, by rw [hstores]; exact List.mem_cons_self⟩
  have hfree : ¬ResetsDivider (m.runStores [.happening .step]) := by
    rw [runStores, actStores, hnone]
    rintro ⟨v, hmem⟩
    exact List.not_mem_nil hmem
  obtain ⟨-, hstart, -⟩ := lockstep_of_run hm hrun₁
  obtain ⟨⟨-, hdot, -⟩, -, hsteps⟩ := lockstep_of_run hm hrun
  obtain ⟨t, n₁, c, n₂, left, hbefore, hs, hrest, htotal, -, hlast⟩ :=
    hsteps [.step] [.keys ⟨.buttons, 1, true⟩] rfl
  rw [hrun₁] at hbefore
  cases hbefore
  rw [hs₂] at hs
  cases hs
  obtain rfl : left = 0 := by omega
  refine ⟨m, m₁, _, hm, hrun₁, hstart hfree, hrun, hresets, hdot, hlast hresets ?_⟩
  rintro ⟨v, hmem⟩
  exact List.not_mem_nil hmem

end Machine
end Handheld
