import Handheld.Proofs.Emulator.Acts
import Mathlib.Algebra.BigOperators.Intervals
import Mathlib.Tactic.ByContra

/-!
# How long a pause lasts

An emulator pauses when a tick comes to a breakpoint, or when it is told to go in single steps.
From then on a tick makes a step only if one has been asked for, and the point of a pause is that
nothing moves until then.

It does move, once, if a step has been asked for *before* the pause (`Emulator.not_always_paused`).
While execution runs freely nobody looks at the request, so it stays open; and of the ways into a
pause only `toggleSingleStep` drops it.  `Emulator.staysPaused_iff` says when a pause is kept: when
no request is open as it begins, or when the open one is overtaken by another, or the pause ends,
before the first tick.

The pause is followed by counting.  While it lasts, the steps made and the request that is open
together never exceed the requests made and the one that was open at first.
-/

set_option autoImplicit false

namespace Handheld
namespace Emulator

variable {σ : Type}

/-! ## Runs -/

/-- The debugger of each moment is what the act before has left; the rest of the emulator may have
become any other. -/
structure IsRun (run : Nat → Emulator σ) (acts : Nat → Act) : Prop where
  start : (run 0).debugger = {}
  next : ∀ n, (run (n + 1)).debugger = ((run n).after (acts n)).debugger

/-- The number of steps made in the acts from moment `n` to before moment `m`. -/
def stepsMade (run : Nat → Emulator σ) (acts : Nat → Act) (n m : Nat) : Nat :=
  ∑ k ∈ Finset.Ico n m, (run k).stepsIn (acts k)

/-- The number of steps asked for from moment `n` to before moment `m`. -/
def stepsAsked (acts : Nat → Act) (n m : Nat) : Nat :=
  ∑ k ∈ Finset.Ico n m, (acts k).requested

theorem stepsMade_succ (run : Nat → Emulator σ) (acts : Nat → Act) {n m : Nat} (h : n ≤ m) :
    stepsMade run acts n (m + 1) = stepsMade run acts n m + (run m).stepsIn (acts m) :=
  Finset.sum_Ico_succ_top h _

theorem stepsAsked_succ (acts : Nat → Act) {n m : Nat} (h : n ≤ m) :
    stepsAsked acts n (m + 1) = stepsAsked acts n m + (acts m).requested :=
  Finset.sum_Ico_succ_top h _

/-- The act at moment `n` makes the emulator wait: a tick that has come to a breakpoint, or the
call that says so. -/
structure Pauses (run : Nat → Emulator σ) (acts : Nat → Act) (n : Nat) : Prop where
  running : (run n).debugger.singleStep = false
  waiting : (run (n + 1)).debugger.singleStep = true
  cause : acts n = .call .enableSingleStep ∨ ∃ dt, acts n = .tick dt

/-- From the pause at moment `n` on, until it is ended, there are no more steps than have been asked
for since. -/
def StaysPaused (run : Nat → Emulator σ) (acts : Nat → Act) (n : Nat) : Prop :=
  ∀ m, n < m → (∀ k, n < k → k < m → ¬(acts k).Toggles) →
    stepsMade run acts (n + 1) m ≤ stepsAsked acts (n + 1) m

/-- Before the first tick after moment `n`, the pause is ended or a step asked for. -/
def Overtaken (acts : Nat → Act) (n : Nat) : Prop :=
  ∀ m dt, n < m → acts m = .tick dt → ∃ k, n < k ∧ k < m ∧ ((acts k).Toggles ∨ (acts k).Requests)

namespace IsRun

variable {run : Nat → Emulator σ} {acts : Nat → Act}

/-- **Where an open request comes from**: it has been made, and nothing has dropped it since. -/
theorem stepRequested_iff (hrun : IsRun run acts) (n : Nat) :
    (run n).debugger.stepRequested = true ↔
      ∃ k < n, (acts k).Requests ∧ ∀ j, k < j → j < n → ¬(run j).Drops (acts j) := by
  induction n with
  | zero => simp [hrun.start]
  | succ n ih =>
    rw [hrun.next, stepRequested_after, ih]
    constructor
    · rintro (hr | ⟨⟨k, hk, hr, hkept⟩, hn⟩)
      · exact ⟨n, n.lt_succ_self, hr, fun j hj hj' ↦ by omega⟩
      · refine ⟨k, by omega, hr, fun j hj hj' ↦ ?_⟩
        rcases Nat.lt_succ_iff_lt_or_eq.1 hj' with hlt | rfl
        · exact hkept j hj hlt
        · exact hn
    · rintro ⟨k, hk, hr, hkept⟩
      rcases Nat.lt_succ_iff_lt_or_eq.1 hk with hlt | rfl
      · exact Or.inr ⟨⟨k, hlt, hr, fun j hj hj' ↦ hkept j hj (by omega)⟩,
          hkept n hlt n.lt_succ_self⟩
      · exact Or.inl hr

/-- **While the emulator waits**, the steps made and the request that is open are covered by the
steps asked for and the request that was open at first, and are neither more nor less if none has
been asked for. -/
theorem waiting_run (hrun : IsRun run acts) {n m : Nat} (hnm : n ≤ m)
    (hwait : (run n).debugger.singleStep = true)
    (hno : ∀ k, n ≤ k → k < m → ¬(acts k).Toggles) :
    (run m).debugger.singleStep = true ∧
      stepsMade run acts n m + (run m).debugger.openRequests ≤
        stepsAsked acts n m + (run n).debugger.openRequests ∧
      ((∀ k, n ≤ k → k < m → ¬(acts k).Requests) →
        stepsMade run acts n m + (run m).debugger.openRequests =
          (run n).debugger.openRequests) := by
  induction m, hnm using Nat.le_induction with
  | base => simp [stepsMade, stepsAsked, hwait]
  | succ m hnm ih =>
    obtain ⟨hwait', hle, heq⟩ := ih fun k hk hk' ↦ hno k hk (by omega)
    obtain ⟨hwait'', hplain, hrequest⟩ := after_of_waiting hwait' (hno m hnm m.lt_succ_self)
    rw [← hrun.next] at hwait'' hplain hrequest
    rw [stepsMade_succ run acts hnm, stepsAsked_succ acts hnm]
    refine ⟨hwait'', ?_, fun hnone ↦ ?_⟩
    · by_cases hr : (acts m).Requests
      · obtain ⟨hsteps, hopen⟩ := hrequest hr
        have hone : (acts m).requested = 1 := if_pos hr
        omega
      · have := hplain hr
        omega
    · have := heq fun k hk hk' ↦ hnone k hk (by omega)
      have := hplain (hnone m hnm m.lt_succ_self)
      omega

/-- If no tick comes before a step has been asked for, the request that was open at first does not
count: either nothing has been asked for and no step made, or the steps made are covered by the
steps asked for. -/
theorem waiting_overtaken (hrun : IsRun run acts) {n m : Nat} (hnm : n ≤ m)
    (hwait : (run n).debugger.singleStep = true)
    (hno : ∀ k, n ≤ k → k < m → ¬(acts k).Toggles)
    (hfirst : ∀ k dt, n ≤ k → k < m → acts k = .tick dt →
      ∃ j, n ≤ j ∧ j < k ∧ (acts j).Requests) :
    (stepsMade run acts n m = 0 ∧ ∀ k, n ≤ k → k < m → ¬(acts k).Requests) ∨
      stepsMade run acts n m + (run m).debugger.openRequests ≤ stepsAsked acts n m := by
  induction m, hnm using Nat.le_induction with
  | base => exact Or.inl ⟨by simp [stepsMade], fun k hk hk' ↦ by omega⟩
  | succ m hnm ih =>
    have hbefore : ∀ k, n ≤ k → k < m → ¬(acts k).Toggles := fun k hk hk' ↦ hno k hk (by omega)
    obtain ⟨hwait', -⟩ := hrun.waiting_run hnm hwait hbefore
    obtain ⟨-, hplain, hrequest⟩ := after_of_waiting hwait' (hno m hnm m.lt_succ_self)
    rw [← hrun.next] at hplain hrequest
    rw [stepsMade_succ run acts hnm, stepsAsked_succ acts hnm]
    by_cases hr : (acts m).Requests
    · right
      obtain ⟨hsteps, hopen⟩ := hrequest hr
      have hone : (acts m).requested = 1 := if_pos hr
      rcases ih hbefore fun k dt hk hk' ↦ hfirst k dt hk (by omega) with ⟨hzero, -⟩ | hle <;> omega
    · rcases ih hbefore fun k dt hk hk' ↦ hfirst k dt hk (by omega) with ⟨hzero, hnone⟩ | hle
      · left
        refine ⟨?_, fun k hk hk' ↦ ?_⟩
        · cases hact : acts m with
          | tick dt =>
            obtain ⟨j, hj, hj', hrj⟩ := hfirst m dt hnm m.lt_succ_self hact
            exact absurd hrj (hnone j hj hj')
          | call c =>
            rw [hzero]
            rfl
        · rcases Nat.lt_succ_iff_lt_or_eq.1 hk' with hlt | rfl
          · exact hnone k hk hlt
          · exact hr
      · right
        have := hplain hr
        omega

variable {n : Nat}

/-- The act that begins a pause leaves the request as it is. -/
theorem stepRequested_succ (hrun : IsRun run acts) (h : Pauses run acts n) :
    (run (n + 1)).debugger.stepRequested = true ↔ (run n).debugger.stepRequested = true := by
  have hkeeps : ¬(run n).Drops (acts n) := by
    rintro (ht | ⟨hw, -⟩)
    · rcases h.cause with hc | ⟨dt, hc⟩ <;> rw [hc] at ht <;> cases ht
    · rw [h.running] at hw
      cases hw
  have hno : ¬(acts n).Requests := by
    intro hr
    rcases h.cause with hc | ⟨dt, hc⟩ <;> rw [hc] at hr <;> cases hr
  rw [hrun.next, stepRequested_after]
  simp [hkeeps, hno]

/-- A pause that begins with an open request is kept only if that is overtaken: otherwise the first
tick makes the step. -/
theorem overtaken_of_staysPaused (hrun : IsRun run acts) (h : Pauses run acts n)
    (hopen : (run (n + 1)).debugger.stepRequested = true) (hstays : StaysPaused run acts n) :
    Overtaken acts n := by
  intro m dt hm htick
  by_contra hnot
  have hnone : ∀ k, n + 1 ≤ k → k < m + 1 → ¬(acts k).Toggles ∧ ¬(acts k).Requests := by
    intro k hk hk'
    rcases Nat.lt_succ_iff_lt_or_eq.1 hk' with hlt | rfl
    · exact not_or.1 fun hor ↦ hnot ⟨k, hk, hlt, hor⟩
    · rw [htick]
      exact ⟨nofun, nofun⟩
  have hasked : stepsAsked acts (n + 1) (m + 1) = 0 := by
    refine Finset.sum_eq_zero fun k hk ↦ if_neg ?_
    obtain ⟨hk, hk'⟩ := Finset.mem_Ico.1 hk
    exact (hnone k hk hk').2
  obtain ⟨hwait, -⟩ := hrun.waiting_run hm h.waiting fun k hk hk' ↦ (hnone k hk (by omega)).1
  have hserved : (run (m + 1)).debugger.openRequests = 0 := by
    refine Debugger.openRequests_of_not_requested (Bool.eq_false_iff.2 fun hr ↦ ?_)
    rw [hrun.next, stepRequested_after] at hr
    rcases hr with hr | ⟨-, hkept⟩
    · exact (hnone m hm m.lt_succ_self).2 hr
    · exact hkept (Or.inr ⟨hwait, dt, htick⟩)
  have hle := hstays (m + 1) (by omega) fun k hk hk' ↦ (hnone k hk hk').1
  obtain ⟨-, -, heq⟩ := hrun.waiting_run (m := m + 1) (by omega) h.waiting
    fun k hk hk' ↦ (hnone k hk hk').1
  have := heq fun k hk hk' ↦ (hnone k hk hk').2
  rw [Debugger.openRequests_of_requested hopen] at this
  omega

theorem staysPaused_of_overtaken (hrun : IsRun run acts) (h : Pauses run acts n)
    (hover : Overtaken acts n) : StaysPaused run acts n := by
  intro m hm hno
  have hfirst : ∀ k dt, n + 1 ≤ k → k < m → acts k = .tick dt →
      ∃ j, n + 1 ≤ j ∧ j < k ∧ (acts j).Requests := by
    intro k dt hk hk' htick
    obtain ⟨j, hj, hj', ht | hr⟩ := hover k dt hk htick
    · exact absurd ht (hno j hj (by omega))
    · exact ⟨j, hj, hj', hr⟩
  have hm' : n + 1 ≤ m := hm
  rcases hrun.waiting_overtaken hm' h.waiting hno hfirst with ⟨hzero, -⟩ | hle <;> omega

theorem staysPaused_of_not_requested (hrun : IsRun run acts) (h : Pauses run acts n)
    (hopen : (run (n + 1)).debugger.stepRequested = false) : StaysPaused run acts n := by
  intro m hm hno
  have hm' : n + 1 ≤ m := hm
  obtain ⟨-, hle, -⟩ := hrun.waiting_run hm' h.waiting hno
  rw [Debugger.openRequests_of_not_requested hopen] at hle
  omega

/-- A pause is never broken by more than one step. -/
theorem stepsMade_le (hrun : IsRun run acts) (h : Pauses run acts n) {m : Nat} (hm : n < m)
    (hno : ∀ k, n < k → k < m → ¬(acts k).Toggles) :
    stepsMade run acts (n + 1) m ≤ stepsAsked acts (n + 1) m + 1 := by
  have hm' : n + 1 ≤ m := hm
  obtain ⟨-, hle, -⟩ := hrun.waiting_run hm' h.waiting hno
  have hone : (run (n + 1)).debugger.openRequests ≤ 1 := by
    rw [Debugger.openRequests]
    split <;> decide
  omega

end IsRun

/-- **When a pause is kept.**  Exactly when no request is open as it begins, or before the first
tick the pause is ended or a step asked for; otherwise there is one step too many, and no more.  A
request is open exactly when it was made before the pause and nothing has dropped it. -/
theorem staysPaused_iff {run : Nat → Emulator σ} {acts : Nat → Act} (hrun : IsRun run acts)
    {n : Nat} (h : Pauses run acts n) :
    (StaysPaused run acts n ↔
        ((run (n + 1)).debugger.stepRequested = true → Overtaken acts n)) ∧
      ((run (n + 1)).debugger.stepRequested = true ↔
        ∃ k < n, (acts k).Requests ∧ ∀ j, k < j → j < n → ¬(run j).Drops (acts j)) ∧
      ∀ m, n < m → (∀ k, n < k → k < m → ¬(acts k).Toggles) →
        stepsMade run acts (n + 1) m ≤ stepsAsked acts (n + 1) m + 1 := by
  refine ⟨⟨fun hstays hopen ↦ hrun.overtaken_of_staysPaused h hopen hstays, fun hover ↦ ?_⟩, ?_,
    fun m hm hno ↦ hrun.stepsMade_le h hm hno⟩
  · cases hopen : (run (n + 1)).debugger.stepRequested with
    | true => exact hrun.staysPaused_of_overtaken h (hover hopen)
    | false => exact hrun.staysPaused_of_not_requested h hopen
  · rw [hrun.stepRequested_succ h, hrun.stepRequested_iff]

/-! ## A step that was asked for too early -/

/-- A step is asked for, then execution is made to wait, then time passes. -/
def earlyActs : Nat → Act
  | 0 => .call .requestStep
  | 1 => .call .enableSingleStep
  | _ => .tick 1

/-- An emulator that has not run yet, through these acts. -/
def earlyRun : Nat → Emulator Unit
  | 0 => slow .blank
  | n + 1 => (earlyRun n).after (earlyActs n)

theorem isRun_early : IsRun earlyRun earlyActs := ⟨rfl, fun _ ↦ rfl⟩

theorem pauses_early : Pauses earlyRun earlyActs 1 := ⟨rfl, rfl, Or.inl rfl⟩

/-- **A pause is not always kept**: here the tick makes a step that nobody has asked for since. -/
theorem not_always_paused :
    ¬∀ (run : Nat → Emulator Unit) (acts : Nat → Act), IsRun run acts →
      ∀ n, Pauses run acts n → StaysPaused run acts n := by
  intro h
  have hno : ∀ k, 1 < k → k < 3 → ¬(earlyActs k).Toggles := by
    intro k hk hk'
    obtain rfl : k = 2 := by omega
    exact nofun
  have hle : stepsMade earlyRun earlyActs 2 3 ≤ stepsAsked earlyActs 2 3 :=
    h earlyRun earlyActs isRun_early 1 pauses_early 3 (by decide) hno
  have hmade : stepsMade earlyRun earlyActs 2 3 = 1 := by
    rw [stepsMade, Nat.Ico_succ_singleton, Finset.sum_singleton]
    exact stepsIn_of_waiting rfl 1
  have hasked : stepsAsked earlyActs 2 3 = 0 := by
    rw [stepsAsked, Nat.Ico_succ_singleton, Finset.sum_singleton]
    rfl
  omega

/-- In this run the request is open as the pause begins, and nothing overtakes it. -/
theorem staysPaused_iff_early :
    IsRun earlyRun earlyActs ∧ Pauses earlyRun earlyActs 1 ∧
      (earlyRun 2).debugger.stepRequested = true ∧ ¬Overtaken earlyActs 1 ∧
      ¬StaysPaused earlyRun earlyActs 1 := by
  have hover : ¬Overtaken earlyActs 1 := by
    intro h
    obtain ⟨k, hk, hk', -⟩ := h 2 1 (by decide) rfl
    omega
  obtain ⟨hiff, -, -⟩ := staysPaused_iff isRun_early pauses_early
  exact ⟨isRun_early, pauses_early, rfl, hover, fun hstays ↦ hover (hiff.1 hstays rfl)⟩

end Emulator
end Handheld
