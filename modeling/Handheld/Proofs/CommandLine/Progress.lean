import Handheld.CommandLine.Run
import Handheld.Proofs.Emulator.Breaks
import Handheld.Proofs.Machine.Runs
import Mathlib.Data.Nat.Find
import Mathlib.Tactic.ByContra

/-!
# A run from the command line comes to its end

Without a wall clock a run lets its emulator tick by one millisecond until it is over
(`Run.complete`), and what it waits for is a number of frames.  Frames come with time: the picture
unit goes its way whatever the program does (`Scan.RunFor`), also while the processor is halted or
stopped.  So a run that no breakpoint and no failure ends is over as soon as the machine has run long
enough.

`Run.Follows` is the invariant.  After `n` ticks the machine has run `n` slices and the debt, which is
less than a step; the history of the debugger tells in how many steps.  A tick fails only if one
of these steps does (`Run.Follows.steps_of_error`).

A slice is as long as a millisecond, but not longer than the longest slice that is allowed.  If that
is none at all, no tick ever runs anything, and a run that wants a frame goes on for good.
`Run.ends_iff` says that this is the only way in which it does.
-/

set_option autoImplicit false

namespace Handheld

/-! ## Setting breakpoints -/

theorem Breakpoints.contains_add {t : Breakpoints} {a : UInt16} (h : (t.add a).1 ≠ .refused)
    (b : UInt16) : (t.add a).2.contains b = true ↔ t.contains b = true ∨ b = a := by
  rw [add] at h ⊢
  split
  · rename_i hin
    exact ⟨Or.inl, fun hb ↦ hb.elim id fun e ↦ e ▸ hin⟩
  · split
    · simp
    · rename_i hin hfull
      rw [if_neg hin, if_neg hfull] at h
      exact absurd rfl h

namespace Run

/-- The debugger has the breakpoints that it is given, and is else as it was. -/
theorem setBreakpoints_eq_ok {d d' : Debugger} {addresses : List UInt16}
    (h : setBreakpoints d addresses = .ok d') :
    (∀ a, d'.hasBreakpoint a = true ↔ d.hasBreakpoint a = true ∨ a ∈ addresses) ∧
      d'.singleStep = d.singleStep ∧ d'.history = d.history := by
  induction addresses generalizing d with
  | nil =>
    cases h
    simp
  | cons a rest ih =>
    rw [setBreakpoints] at h
    split at h
    · cases h
    · rename_i placement d₁ hne hadd
      obtain ⟨hhas, hwaits, hhistory⟩ := ih h
      have hplacement : (d.breakpoints.add a).1 ≠ .refused := fun he ↦
        hne ((congrArg Prod.fst hadd).symm.trans he)
      obtain rfl : (d.addBreakpoint a).2 = d₁ := congrArg Prod.snd hadd
      refine ⟨fun b ↦ ?_, hwaits, hhistory⟩
      rw [hhas b, List.mem_cons, ← or_assoc]
      exact or_congr_left (Breakpoints.contains_add hplacement b)

/-! ## Rounds -/

/-- The run after some ticks of a millisecond. -/
def after (r : Run) : Nat → Run
  | 0 => r
  | n + 1 => (r.advance 1).after n

theorem advance_of_isOver {r : Run} (h : r.isOver = true) (dt : Nat) : r.advance dt = r := by
  rw [advance, if_pos h]

theorem after_of_isOver {r : Run} (h : r.isOver = true) (n : Nat) : r.after n = r := by
  induction n with
  | zero => rfl
  | succ n ih => rw [after, advance_of_isOver h, ih]

theorem after_succ (r : Run) (n : Nat) : r.after (n + 1) = (r.after n).advance 1 := by
  induction n generalizing r with
  | zero => rfl
  | succ n ih => rw [after, ih, after]

/-- The loop with its first round taken apart. -/
theorem complete_eq (r : Run) :
    r.complete = if r.isOver then r else (r.advance 1).complete := by
  have : Nonempty Run := ⟨r⟩
  rw [complete]
  refine (repeatM_eq_of_monadTail (m := Id) r).trans ?_
  rw [repeatM.body]
  dsimp only
  cases r.isOver <;> rfl

/-- **A run is complete as soon as it is over.** -/
theorem complete_eq_after {r : Run} {n : Nat} (h : (r.after n).isOver = true) :
    r.complete = r.after n := by
  induction n generalizing r with
  | zero =>
    rw [after] at h ⊢
    rw [complete_eq, if_pos h]
  | succ n ih =>
    rw [complete_eq]
    split
    · rename_i hover
      rw [after_of_isOver hover]
    · exact ih h

/-- If it ever is over, it is complete after the first tick with which it is. -/
theorem exists_complete_eq_after {r : Run} (h : ∃ n, (r.after n).isOver = true) :
    ∃ n, (∀ j < n, (r.after j).isOver = false) ∧ (r.after n).isOver = true ∧
      r.complete = r.after n :=
  ⟨Nat.find h, fun _ hj ↦ Bool.eq_false_iff.2 (Nat.find_min h hj), Nat.find_spec h,
    complete_eq_after (Nat.find_spec h)⟩

/-- A tick that fails ends the run. -/
theorem advance_of_tick_error {r : Run} {dt : Nat} {error : MachineError}
    {e : Emulator (Array String)} (hgo : r.isOver = false)
    (h : r.emulator.tick dt = ⟨.error error, e⟩) :
    r.advance dt = { r with emulator := e, error := some error } := by
  obtain ⟨emulator, wanted, firstFrame, lastFrame, pictures, stopped, before⟩ := r
  have h : emulator.tick dt = ⟨.error error, e⟩ := h
  rw [advance, if_neg (by rw [hgo]; decide)]
  dsimp only
  rw [h]

/-- What a tick that succeeds makes of a run: the emulator is as the tick leaves it, a line that may
have been printed apart; a picture is kept if a frame has begun; and the run is stopped if execution
waits now. -/
theorem advance_of_tick {r : Run} {dt : Nat} {report : TickReport} {e : Emulator (Array String)}
    (hgo : r.isOver = false) (h : r.emulator.tick dt = ⟨.ok report, e⟩) :
    ∃ notes, r.advance dt =
      { r with
        emulator := { e with notes }
        lastFrame := e.machine.ppu.frameCount
        pictures :=
          if e.machine.ppu.frameCount = r.lastFrame then r.pictures
          else r.pictures.map (· ++ e.machine.ppu.screen.toRgb24)
        stopped := r.stopped || e.debugger.singleStep } := by
  obtain ⟨emulator, wanted, firstFrame, lastFrame, pictures, stopped, error⟩ := r
  have h : emulator.tick dt = ⟨.ok report, e⟩ := h
  rw [advance, if_neg (by rw [hgo]; decide)]
  dsimp only
  rw [h]
  dsimp only
  have hpicture : takePicture ⟨e, wanted, firstFrame, lastFrame, pictures, stopped, error⟩ =
      ⟨e, wanted, firstFrame, e.machine.ppu.frameCount,
        if e.machine.ppu.frameCount = lastFrame then pictures
        else pictures.map (· ++ e.machine.ppu.screen.toRgb24), stopped, error⟩ := by
    rw [takePicture]
    dsimp only
    split
    · rename_i hsame
      rw [hsame]
    · rfl
  rw [hpicture, checkStop]
  dsimp only
  cases e.debugger.singleStep with
  | false => exact ⟨e.notes, by rw [Bool.or_false]; rfl⟩
  | true => exact ⟨_, by rw [Bool.or_true]; rfl⟩

end Run

/-! ## What is so after every tick -/

/-- The clock cycles that a tick of a millisecond is given. -/
def Options.cyclesPerTick (o : Options) : Nat := PacingPolicy.budget { maxSliceMs := o.maxSliceMs } 1

theorem Options.cyclesPerTick_eq (o : Options) :
    o.cyclesPerTick = min 4194 (4194 * o.maxSliceMs) := by
  have hmillisecond : PacingPolicy.cyclesPerMs { maxSliceMs := o.maxSliceMs } = 4194 := by
    simp [PacingPolicy.cyclesPerMs, standardClock]
  rw [cyclesPerTick, PacingPolicy.budget, PacingPolicy.sliceCycles, PacingPolicy.maxSliceCycles,
    hmillisecond]

theorem Options.cyclesPerTick_le (o : Options) : o.cyclesPerTick ≤ 4194 := by
  rw [cyclesPerTick_eq]
  exact Nat.min_le_left _ _

theorem Options.cyclesPerTick_of_pos {o : Options} (h : 0 < o.maxSliceMs) :
    o.cyclesPerTick = 4194 := by
  rw [cyclesPerTick_eq]
  omega

namespace Run

/-- After `n` ticks the run has done what the options ask for, and nothing has failed: it began with
the machine `m`, which has made as many steps as the history says. -/
structure Follows (o : Options) (m : Machine) (n : Nat) (r : Run) : Prop where
  input_eq : r.emulator.input = none
  policy_eq : r.emulator.policy = { maxSliceMs := o.maxSliceMs }
  hasBreakpoint_iff : ∀ a, r.emulator.debugger.hasBreakpoint a = true ↔ a ∈ o.breakpoints
  waits : r.emulator.WaitsAtBreakpoint
  debt_lt : r.emulator.cycleDebt < 24
  wanted_eq : r.wanted = o.frames
  firstFrame_eq : r.firstFrame = m.ppu.frameCount
  lastFrame_eq : r.lastFrame = r.emulator.machine.ppu.frameCount
  stopped_eq : r.stopped = r.emulator.debugger.singleStep
  error_eq : r.error = none
  steps : ∃ total,
    m.steps r.emulator.debugger.history.count = ⟨.ok total, r.emulator.machine⟩ ∧
      (r.stopped = false → total = n * o.cyclesPerTick + r.emulator.cycleDebt)

theorem start_eq_ok {o : Options} {m : Machine} {journal : Journal} {r : Run}
    (h : start o m journal = .ok r) :
    ∃ debugger, setBreakpoints {} o.breakpoints = .ok debugger ∧
      r = {
        emulator :=
          { machine := m, debugger, notes := #[], journal
            policy := { maxSliceMs := o.maxSliceMs }
            observers := [breakpointPrinter] }
        wanted := o.frames
        firstFrame := m.ppu.frameCount
        lastFrame := m.ppu.frameCount
        pictures := o.dump.map fun _ ↦ ByteArray.empty } := by
  rw [start] at h
  cases hset : setBreakpoints {} o.breakpoints with
  | error e =>
    rw [hset] at h
    cases h
  | ok debugger =>
    rw [hset] at h
    exact ⟨debugger, rfl, (Except.ok.inj h).symm⟩

theorem follows_start {o : Options} {m : Machine} {journal : Journal} {r : Run}
    (h : start o m journal = .ok r) : r.Follows o m 0 := by
  obtain ⟨debugger, hset, rfl⟩ := start_eq_ok h
  obtain ⟨hhas, hrunning, hhistory⟩ := setBreakpoints_eq_ok hset
  have hrunning : debugger.singleStep = false := hrunning
  have hnone : debugger.history.count = 0 := congrArg History.count hhistory
  exact {
    input_eq := rfl
    policy_eq := rfl
    hasBreakpoint_iff := fun a ↦ (hhas a).trans (by simp [Debugger.hasBreakpoint])
    waits := fun hwaits ↦ Bool.noConfusion (hrunning.symm.trans hwaits)
    debt_lt := Nat.zero_lt_succ _
    wanted_eq := rfl
    firstFrame_eq := rfl
    lastFrame_eq := rfl
    stopped_eq := hrunning.symm
    error_eq := rfl
    steps := ⟨0, by rw [hnone]; rfl, fun _ ↦ by simp⟩ }

/-- What a tick has made of a run that follows the options. -/
structure Ticked (o : Options) (r r' : Run) : Prop where
  slice : ∃ total,
    Watched.SliceEnds o.cyclesPerTick r.emulator.cycleDebt r.emulator.toWatched total
        r'.emulator.toWatched ∧
      r'.emulator.cycleDebt = total - o.cyclesPerTick
  pictures_eq : r'.pictures =
    if r'.lastFrame = r.lastFrame then r.pictures
    else r.pictures.map (· ++ r'.emulator.machine.ppu.screen.toRgb24)

/-- **One tick**: it fails as the machine does, or the run goes on as the options ask for. -/
theorem Follows.advance {o : Options} {m : Machine} {n : Nat} {r : Run} (h : r.Follows o m n)
    (hgo : r.isOver = false) :
    (∃ error k, (r.advance 1).error = some error ∧ (m.steps k).answer = .error error) ∨
      Ticked o r (r.advance 1) ∧ (r.advance 1).Follows o m (n + 1) := by
  have hnotStopped : r.stopped = false := by
    rw [isOver, Bool.or_eq_false_iff, Bool.or_eq_false_iff] at hgo
    exact hgo.1.1
  have hrunning : r.emulator.debugger.singleStep = false := h.stopped_eq.symm.trans hnotStopped
  rcases ht : r.emulator.tick 1 with ⟨e | report, e'⟩
  · left
    obtain ⟨k, hk⟩ := Emulator.steps_of_tick_eq_error h.input_eq hrunning Nat.one_ne_zero ht
    obtain ⟨total, hsteps, -⟩ := h.steps
    rw [advance_of_tick_error hgo ht]
    exact ⟨e, _, rfl, Machine.answer_steps_add hsteps hk⟩
  · right
    obtain ⟨notes, hadvance⟩ := advance_of_tick hgo ht
    obtain ⟨total, hends, hdebt, hpolicy, hinput⟩ :=
      Emulator.tick_eq_ok h.input_eq hrunning Nat.one_ne_zero h.debt_lt ht
    have hbudget : r.emulator.policy.budget 1 = o.cyclesPerTick := by
      rw [h.policy_eq, Options.cyclesPerTick]
    rw [hbudget] at hends hdebt
    rw [hadvance]
    obtain ⟨⟨k, t, hk, htotal, hcount⟩, hbreakpoints, hlt, hle, hwaits⟩ := hends
    obtain ⟨before, hbefore, hgiven⟩ := h.steps
    have hgiven := hgiven hnotStopped
    refine ⟨⟨⟨total, ⟨⟨k, t, hk, htotal, hcount⟩, hbreakpoints, hlt, hle, hwaits⟩, hdebt⟩, rfl⟩, ?_⟩
    exact {
      input_eq := hinput
      policy_eq := hpolicy.trans h.policy_eq
      hasBreakpoint_iff := fun a ↦ by
        rw [← h.hasBreakpoint_iff a, Debugger.hasBreakpoint, Debugger.hasBreakpoint, hbreakpoints]
      waits := hwaits
      debt_lt := by
        show e'.cycleDebt < 24
        omega
      wanted_eq := h.wanted_eq
      firstFrame_eq := h.firstFrame_eq
      lastFrame_eq := rfl
      stopped_eq := by
        rw [hnotStopped, Bool.false_or]
      error_eq := h.error_eq
      steps := by
        refine ⟨before + t, ?_, fun hgoesOn ↦ ?_⟩
        · show m.steps e'.debugger.history.count = _
          rw [hcount]
          exact Machine.steps_add_eq_ok.2 ⟨before, _, t, hbefore, hk, rfl⟩
        · rw [hnotStopped, Bool.false_or] at hgoesOn
          have hle := hle hgoesOn
          show before + t = (n + 1) * o.cyclesPerTick + e'.cycleDebt
          rw [Nat.succ_mul]
          omega }

/-! ## Many ticks -/

theorem isOver_eq_false_iff {r : Run} :
    r.isOver = false ↔ r.stopped = false ∧ r.error = none ∧ r.framesDrawn < r.wanted := by
  rw [isOver, Bool.or_eq_false_iff, Bool.or_eq_false_iff, Option.isSome_eq_false_iff,
    Option.isNone_iff_eq_none, decide_eq_false_iff_not, Nat.not_le, and_assoc]

/-- What holds at the start, and still holds after a tick that does not fail, holds as long as the run
is not over. -/
theorem after_induction {P : Nat → Run → Prop} {r : Run} (hstart : P 0 r)
    (htick : ∀ n r, P n r → r.isOver = false → (r.advance 1).error = none → P (n + 1) (r.advance 1))
    {n : Nat} (hgo : ∀ j < n, (r.after j).isOver = false) (hok : (r.after n).error = none) :
    P n (r.after n) := by
  induction n with
  | zero => exact hstart
  | succ n ih =>
    have hbefore := hgo n n.lt_succ_self
    have hn := ih (fun j hj ↦ hgo j (Nat.lt_succ_of_lt hj)) (isOver_eq_false_iff.1 hbefore).2.1
    rw [after_succ] at hok ⊢
    exact htick n _ hn hbefore hok

theorem Follows.tick {o : Options} {m : Machine} {n : Nat} {r : Run} (h : r.Follows o m n)
    (hgo : r.isOver = false) (hok : (r.advance 1).error = none) :
    Ticked o r (r.advance 1) ∧ (r.advance 1).Follows o m (n + 1) := by
  rcases h.advance hgo with ⟨error, -, herror, -⟩ | hticked
  · rw [hok] at herror
    cases herror
  · exact hticked

/-- **As long as it is not over, a run follows the options.** -/
theorem Follows.after {o : Options} {m : Machine} {r : Run} (h : r.Follows o m 0) {n : Nat}
    (hgo : ∀ j < n, (r.after j).isOver = false) (hok : (r.after n).error = none) :
    (r.after n).Follows o m n :=
  after_induction (P := fun n r ↦ r.Follows o m n) h
    (fun _ _ hn hbefore hok ↦ (hn.tick hbefore hok).2) hgo hok

/-- **A run fails only if the machine does.** -/
theorem Follows.steps_of_error {o : Options} {m : Machine} {r : Run} (h : r.Follows o m 0) {n : Nat}
    (hgo : ∀ j < n, (r.after j).isOver = false) {error : MachineError}
    (herror : (r.after n).error = some error) : ∃ k, (m.steps k).answer = .error error := by
  cases n with
  | zero =>
    rw [Run.after, h.error_eq] at herror
    cases herror
  | succ n =>
    have hbefore := hgo n n.lt_succ_self
    have hn := h.after (fun j hj ↦ hgo j (Nat.lt_succ_of_lt hj)) (isOver_eq_false_iff.1 hbefore).2.1
    rw [after_succ] at herror
    rcases hn.advance hbefore with ⟨e, k, he, hk⟩ | ⟨-, hnext⟩
    · rw [herror] at he
      cases he
      exact ⟨k, hk⟩
    · rw [hnext.error_eq] at herror
      cases herror

/-- A run that has gone on long enough is over. -/
theorem Follows.isOver {o : Options} {m : Machine} {n : Nat} {r : Run} (h : r.Follows o m n)
    (hm : m.scan.RunFor 0) (hlong : o.frames * frameDots ≤ n * o.cyclesPerTick) :
    r.isOver = true := by
  by_contra hgo
  rw [Bool.not_eq_true, isOver_eq_false_iff] at hgo
  obtain ⟨hgoesOn, -, hfew⟩ := hgo
  obtain ⟨total, hsteps, htotal⟩ := h.steps
  have htotal := htotal hgoesOn
  have hfirst : m.ppu.frameCount = 0 := hm.frameCount_eq
  have hlast : r.emulator.machine.ppu.frameCount = (0 + total + Scan.blankDots) / frameDots :=
    (Machine.runFor_steps hm hsteps).frameCount_eq
  rw [framesDrawn, h.lastFrame_eq, h.firstFrame_eq, h.wanted_eq, hfirst, hlast, Nat.sub_zero,
    Nat.div_lt_iff_lt_mul (by decide)] at hfew
  omega

/-- Nothing is ever run. -/
structure Stuck (r : Run) : Prop where
  input_eq : r.emulator.input = none
  running : r.emulator.debugger.singleStep = false
  noDebt : r.emulator.cycleDebt = 0
  noBudget : r.emulator.policy.budget 1 = 0
  lastFrame_eq : r.lastFrame = r.emulator.machine.ppu.frameCount
  goesOn : r.isOver = false

theorem Stuck.advance {r : Run} (h : r.Stuck) : (r.advance 1).Stuck := by
  obtain ⟨report, journal, meter, ht⟩ :=
    Emulator.tick_of_no_budget h.input_eq h.running Nat.one_ne_zero h.noDebt h.noBudget
  obtain ⟨notes, hadvance⟩ := advance_of_tick h.goesOn ht
  obtain ⟨hstopped, herror, hfew⟩ := isOver_eq_false_iff.1 h.goesOn
  rw [hadvance]
  refine ⟨h.input_eq, h.running, h.noDebt, h.noBudget, rfl, ?_⟩
  refine isOver_eq_false_iff.2 ⟨?_, herror, ?_⟩
  · rw [hstopped, Bool.false_or]
    exact h.running
  · rw [framesDrawn, h.lastFrame_eq] at hfew
    exact hfew

theorem Stuck.after {r : Run} (h : r.Stuck) (n : Nat) : (r.after n).isOver = false := by
  induction n generalizing r with
  | zero => exact h.goesOn
  | succ n ih => exact ih h.advance

/-- A tick is given 4194 cycles, so with as many ticks as make up the frames, rounded up, a run is
over. -/
theorem Follows.exists_isOver {o : Options} {m : Machine} {r : Run} (h : r.Follows o m 0)
    (hm : m.scan.RunFor 0) (hslice : 0 < o.maxSliceMs) :
    ∃ n ≤ (o.frames * frameDots + 4193) / 4194, (r.after n).isOver = true := by
  by_contra hnever
  have hgo (n : Nat) (hn : n ≤ (o.frames * frameDots + 4193) / 4194) : (r.after n).isOver = false :=
    Bool.eq_false_iff.2 fun hover ↦ hnever ⟨n, hn, hover⟩
  have hlast := hgo _ (Nat.le_refl _)
  have hfollows := h.after (fun j hj ↦ hgo j (Nat.le_of_lt hj)) (isOver_eq_false_iff.1 hlast).2.1
  have hlong : o.frames * frameDots ≤ (o.frames * frameDots + 4193) / 4194 * o.cyclesPerTick := by
    rw [o.cyclesPerTick_of_pos hslice]
    generalize o.frames * frameDots = dots
    omega
  rw [hfollows.isOver hm hlong] at hlast
  cases hlast

/-- A run that wants a frame is stuck if the longest slice is none at all. -/
theorem stuck_start {o : Options} {m : Machine} {journal : Journal} {r : Run}
    (hr : start o m journal = .ok r) (hslice : o.maxSliceMs = 0) (hframes : 0 < o.frames) :
    r.Stuck := by
  obtain ⟨debugger, hset, rfl⟩ := start_eq_ok hr
  obtain ⟨-, hrunning, -⟩ := setBreakpoints_eq_ok hset
  have hfew : m.ppu.frameCount - m.ppu.frameCount < o.frames := by
    rwa [Nat.sub_self]
  exact {
    input_eq := rfl
    running := hrunning
    noDebt := rfl
    noBudget := by
      rw [PacingPolicy.budget, PacingPolicy.maxSliceCycles, hslice, Nat.mul_zero, Nat.min_zero]
    lastFrame_eq := rfl
    goesOn := isOver_eq_false_iff.2 ⟨rfl, rfl, hfew⟩ }

/-- **A run comes to its end, unless it wants a frame and its slices have no length.**  A machine has
just been switched on, and the run that the options ask for is about to start.  If no frame is wanted
or the longest slice is a millisecond or more, then the run is over (the frames are drawn, execution
has come to a breakpoint, or something has failed) after at most as many ticks as the clock cycles
of the frames make up, rounded up.  If a frame is wanted and the longest slice is none, it never
is. -/
theorem ends_iff {boot rom : Option ByteArray} {o : Options} {m : Machine} {journal : Journal}
    {r : Run} (hm : Machine.assemble boot rom = .ok m) (hr : start o m journal = .ok r) :
    (o.frames = 0 ∨ 0 < o.maxSliceMs →
        ∃ n ≤ (o.frames * frameDots + 4193) / 4194,
          (r.after n).isOver = true ∧ r.complete = r.after n) ∧
      (0 < o.frames ∧ o.maxSliceMs = 0 → ∀ n, (r.after n).isOver = false) := by
  refine ⟨fun hends ↦ ?_, fun ⟨hframes, hslice⟩ ↦ (stuck_start hr hslice hframes).after⟩
  have hfollows := follows_start hr
  obtain ⟨n, hle, hn⟩ : ∃ n ≤ (o.frames * frameDots + 4193) / 4194, (r.after n).isOver = true := by
    rcases hends with hnone | hslice
    · have hover : r.isOver = true := by
        rw [isOver, hfollows.wanted_eq, hnone]
        simp
      exact ⟨0, Nat.zero_le _, hover⟩
    · exact hfollows.exists_isOver (Machine.runFor_assemble hm) hslice
  exact ⟨n, hle, hn, complete_eq_after hn⟩

/-- Options with which a run of one frame never ends. -/
def noSlices : Options := { skipBoot := true, frames := 1, maxSliceMs := 0 }

/-- **Not every run ends.** -/
theorem not_always_ends :
    ¬∀ (boot rom : Option ByteArray) (o : Options) (m : Machine) (journal : Journal) (r : Run),
      Machine.assemble boot rom = .ok m → start o m journal = .ok r →
        ∃ n ≤ (o.frames * frameDots + 4193) / 4194 + 1, (r.after n).isOver = true := by
  intro h
  obtain ⟨m, hm⟩ : ∃ m, Machine.assemble none none = .ok m := ⟨_, rfl⟩
  obtain ⟨r, hr⟩ : ∃ r, start noSlices m {} = .ok r := ⟨_, rfl⟩
  obtain ⟨n, -, hn⟩ := h none none noSlices m {} r hm hr
  rw [(stuck_start hr rfl (by decide)).after n] at hn
  cases hn

/-- A frame takes seventeen ticks at most, and with no slices there is none. -/
theorem ends_iff_oneFrame :
    ∃ m r r', Machine.assemble none none = .ok m ∧
      start { noSlices with maxSliceMs := 1 } m {} = .ok r ∧ start noSlices m {} = .ok r' ∧
      (∃ n ≤ 17, (r.after n).isOver = true ∧ r.complete = r.after n) ∧
      ∀ n, (r'.after n).isOver = false := by
  obtain ⟨m, hm⟩ : ∃ m, Machine.assemble none none = .ok m := ⟨_, rfl⟩
  obtain ⟨r, hr⟩ : ∃ r, start { noSlices with maxSliceMs := 1 } m {} = .ok r := ⟨_, rfl⟩
  obtain ⟨r', hr'⟩ : ∃ r, start noSlices m {} = .ok r := ⟨_, rfl⟩
  exact ⟨m, r, r', hm, hr, hr', (ends_iff hm hr).1 (Or.inr (by decide)),
    (ends_iff hm hr').2 ⟨by decide, rfl⟩⟩

end Run
end Handheld
