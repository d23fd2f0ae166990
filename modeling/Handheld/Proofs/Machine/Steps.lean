import Handheld.Machine
import Mathlib.Order.Bounds.Defs

/-!
# Many steps of a machine

`Machine.steps m k` is `m` after `k` steps, and answers the clock cycles that these took; the first
step that fails ends it.  Two facts about single steps carry what is said about many of them: a step
takes at least four and at most twenty-four cycles (`Machine.step_range`), and the total of `k + 1`
steps is the total of `k` of them and one more.

Who runs a machine until it has used up a number of cycles that was `given` to it is at a state that
the machine *approaches* the number through: before each of the steps made so far the total was
still below `given`.  `Machine.Approaches` is this invariant of such a loop, and when the total has
come up to `given` it says that the number of steps is the least possible
(`Machine.Approaches.isLeast`).
-/

set_option autoImplicit false

namespace Handheld

namespace Outcome

variable {σ α γ : Type}

/-- Goes on from the answer and the state of an operation, if it has succeeded. -/
def andThen (o : Outcome σ α) (next : α → σ → Outcome σ γ) : Outcome σ γ :=
  match o with
  | ⟨.ok a, s⟩ => next a s
  | ⟨.error e, s⟩ => ⟨.error e, s⟩

@[simp] theorem andThen_ok (a : α) (s : σ) (next : α → σ → Outcome σ γ) :
    andThen ⟨.ok a, s⟩ next = next a s := rfl

@[simp] theorem andThen_error (e : MachineError) (s : σ) (next : α → σ → Outcome σ γ) :
    andThen ⟨.error e, s⟩ next = ⟨.error e, s⟩ := rfl

/-- Two operations in a row succeed when both do. -/
theorem andThen_eq_ok {o : Outcome σ α} {next : α → σ → Outcome σ γ} {c : γ} {t : σ} :
    o.andThen next = ⟨.ok c, t⟩ ↔ ∃ a s, o = ⟨.ok a, s⟩ ∧ next a s = ⟨.ok c, t⟩ := by
  obtain ⟨answer, s⟩ := o
  cases answer with
  | error e => simp
  | ok a =>
    constructor
    · intro h
      exact ⟨a, s, rfl, h⟩
    · rintro ⟨a, s, h, hn⟩
      cases h
      exact hn

theorem eq_ok_of_answer {o : Outcome σ α} {a : α} (h : o.answer = .ok a) :
    o = ⟨.ok a, o.state⟩ := by
  rw [← h]

theorem eq_error_of_answer {o : Outcome σ α} {e : MachineError} (h : o.answer = .error e) :
    o = ⟨.error e, o.state⟩ := by
  rw [← h]

end Outcome

/-! ## How long a step takes -/

/-- A step of the processor takes a multiple of four cycles, from four to twenty-four. -/
theorem Core.step_range {β : Type} [Bus β] {s : Core β} {cycles : Nat}
    (h : s.step.answer = .ok cycles) : cycles % 4 = 0 ∧ 4 ≤ cycles ∧ cycles ≤ 24 := by
  rw [step] at h
  cases hn : s.nextAction with
  | dispatch source => rw [hn] at h; cases h; decide
  | idle => rw [hn] at h; cases h; decide
  | leaveStop => rw [hn] at h; cases h; decide
  | execute i => rw [hn] at h; cases h; exact i.cycles_range _
  | reject opcode => rw [hn] at h; cases h

namespace Machine

/-- The devices succeed when the picture unit does, and then the timer has run after it. -/
theorem catchUp_eq_ok {m m' : Machine} {cycles : Nat} :
    m.catchUp cycles = ⟨.ok (), m'⟩ ↔
      ∃ s, m.scan.tick cycles = ⟨.ok (), s⟩ ∧
        m' = { m with
          ppu := s.ppu
          bus := (m.timer.tick s.bus cycles).2
          timer := (m.timer.tick s.bus cycles).1 } := by
  obtain ⟨cpu, bus, ppu, timer, header⟩ := m
  rw [catchUp, scan]
  rcases Scan.tick ⟨ppu, bus⟩ cycles with ⟨e | ⟨⟩, ppu', bus'⟩
  · simp
  · constructor
    · rintro h
      cases h
      exact ⟨⟨ppu', bus'⟩, rfl, rfl⟩
    · rintro ⟨s, h, rfl⟩
      cases h
      rfl

/-- A step that succeeds is a step of the processor and then one of the devices, of the same
length. -/
theorem step_eq_ok {m m' : Machine} {cycles : Nat} :
    m.step = ⟨.ok cycles, m'⟩ ↔
      m.core.step.answer = .ok cycles ∧
        catchUp { m with cpu := m.core.step.state.cpu, bus := m.core.step.state.bus } cycles
          = ⟨.ok (), m'⟩ := by
  obtain ⟨cpu, bus, ppu, timer, header⟩ := m
  rw [step]
  rcases hs : Core.step ⟨cpu, bus⟩ with ⟨e | c, cpu', bus'⟩
  · simp [core, hs]
  · have hpos : max c 1 = c := by
      have := (Core.step_range (s := ⟨cpu, bus⟩) (by rw [hs])).2.1
      omega
    simp only [core, hs, hpos]
    rcases hc : catchUp ⟨cpu', bus', ppu, timer, header⟩ c with ⟨e | ⟨⟩, m⟩
    · simp only [Outcome.mk.injEq, reduceCtorEq, false_and, Except.ok.injEq, false_iff, not_and]
      rintro rfl
      rw [hc]
      simp
    · simp only [Outcome.mk.injEq, Except.ok.injEq]
      constructor
      · rintro ⟨rfl, rfl⟩
        exact ⟨rfl, hc⟩
      · rintro ⟨rfl, h⟩
        rw [hc] at h
        cases h
        exact ⟨rfl, rfl⟩

/-- A step of the machine takes a multiple of four cycles, from four to twenty-four. -/
theorem step_range {m m' : Machine} {cycles : Nat} (h : m.step = ⟨.ok cycles, m'⟩) :
    cycles % 4 = 0 ∧ 4 ≤ cycles ∧ cycles ≤ 24 :=
  Core.step_range (step_eq_ok.1 h).1

/-! ## Many steps -/

/-- The machine after `k` steps, and the cycles that they took; the first failure ends it. -/
def steps (m : Machine) : Nat → Outcome Machine Nat
  | 0 => ⟨.ok 0, m⟩
  | k + 1 =>
    (m.steps k).andThen fun total m ↦ m.step.andThen fun cycles m ↦ ⟨.ok (total + cycles), m⟩

theorem steps_succ_eq_ok {m m' : Machine} {k total : Nat} :
    m.steps (k + 1) = ⟨.ok total, m'⟩ ↔
      ∃ t m₁ c, m.steps k = ⟨.ok t, m₁⟩ ∧ m₁.step = ⟨.ok c, m'⟩ ∧ total = t + c := by
  simp only [steps, Outcome.andThen_eq_ok, Outcome.mk.injEq, Except.ok.injEq]
  constructor
  · rintro ⟨t, m₁, h, c, m₂, hs, rfl, rfl⟩
    exact ⟨t, m₁, c, h, hs, rfl⟩
  · rintro ⟨t, m₁, c, h, hs, rfl⟩
    exact ⟨t, m₁, h, c, m', hs, rfl, rfl⟩

/-- Steps can be taken in two parts. -/
theorem steps_add (m : Machine) (j k : Nat) :
    m.steps (j + k) = (m.steps j).andThen fun t m₁ ↦
      (m₁.steps k).andThen fun t' m₂ ↦ ⟨.ok (t + t'), m₂⟩ := by
  rcases hj : m.steps j with ⟨e | t, m₁⟩
  · induction k with
    | zero => exact hj
    | succ k ih =>
      rw [← Nat.add_assoc, steps, ih]
      rfl
  · rw [Outcome.andThen_ok]
    induction k with
    | zero => exact hj
    | succ k ih =>
      rw [← Nat.add_assoc, steps, ih, steps]
      rcases m₁.steps k with ⟨e | t', m₂⟩
      · rfl
      · rcases hs : m₂.step with ⟨e | c, m₃⟩
        · simp [hs]
        · simp [hs, Nat.add_assoc]

theorem steps_add_eq_ok {m m' : Machine} {j k total : Nat} :
    m.steps (j + k) = ⟨.ok total, m'⟩ ↔
      ∃ t m₁ t', m.steps j = ⟨.ok t, m₁⟩ ∧ m₁.steps k = ⟨.ok t', m'⟩ ∧ total = t + t' := by
  simp only [steps_add, Outcome.andThen_eq_ok, Outcome.mk.injEq, Except.ok.injEq]
  constructor
  · rintro ⟨t, m₁, h, t', m₂, h', rfl, rfl⟩
    exact ⟨t, m₁, t', h, h', rfl⟩
  · rintro ⟨t, m₁, t', h, h', rfl⟩
    exact ⟨t, m₁, h, t', m', h', rfl, rfl⟩

theorem answer_steps_one {m : Machine} {e : MachineError} (h : m.step.answer = .error e) :
    (m.steps 1).answer = .error e := by
  rw [steps, steps, Outcome.andThen_ok]
  rcases hs : m.step with ⟨e' | c, m'⟩ <;> rw [hs] at h <;> cases h
  rfl

/-- A failure later on is a failure of the whole. -/
theorem answer_steps_add {m m₁ : Machine} {j k t : Nat} {e : MachineError}
    (h : m.steps j = ⟨.ok t, m₁⟩) (hk : (m₁.steps k).answer = .error e) :
    (m.steps (j + k)).answer = .error e := by
  rw [steps_add, h, Outcome.andThen_ok]
  rcases hs : m₁.steps k with ⟨e' | t', m₂⟩ <;> rw [hs] at hk <;> cases hk
  rfl

/-- The invariant of a loop that steps `m` until `given` cycles are used up: the loop is at `m'`
after `total` cycles, and was below `given` before each step. -/
def Approaches (m : Machine) (given total : Nat) (m' : Machine) : Prop :=
  ∃ k, m.steps k = ⟨.ok total, m'⟩ ∧ ∀ j < k, ∀ t, (m.steps j).answer = .ok t → t < given

namespace Approaches

variable {m m' : Machine} {given total : Nat}

theorem start (m : Machine) (given : Nat) : m.Approaches given 0 m :=
  ⟨0, rfl, fun _ hj ↦ absurd hj (Nat.not_lt_zero _)⟩

theorem mono {more : Nat} (h : m.Approaches given total m') (hle : given ≤ more) :
    m.Approaches more total m' := by
  obtain ⟨k, hk, hbelow⟩ := h
  exact ⟨k, hk, fun j hj t ht ↦ Nat.lt_of_lt_of_le (hbelow j hj t ht) hle⟩

/-- One round of the loop. -/
theorem step {m'' : Machine} {cycles : Nat} (h : m.Approaches given total m')
    (hlt : total < given) (hs : m'.step = ⟨.ok cycles, m''⟩) :
    m.Approaches given (total + cycles) m'' := by
  obtain ⟨k, hk, hbelow⟩ := h
  refine ⟨k + 1, steps_succ_eq_ok.2 ⟨total, m', cycles, hk, hs, rfl⟩, fun j hj t ht ↦ ?_⟩
  rcases Nat.lt_succ_iff_lt_or_eq.1 hj with hj | rfl
  · exact hbelow j hj t ht
  · rw [hk] at ht
    cases ht
    exact hlt

/-- **The loop makes the least number of steps** that use up what was given. -/
theorem isLeast (h : m.Approaches given total m') (hle : given ≤ total) :
    ∃ k, IsLeast {k | ∃ t, (m.steps k).answer = .ok t ∧ given ≤ t} k ∧
      m.steps k = ⟨.ok total, m'⟩ := by
  obtain ⟨k, hk, hbelow⟩ := h
  refine ⟨k, ⟨⟨total, by rw [hk], hle⟩, ?_⟩, hk⟩
  rintro j ⟨t, ht, hge⟩
  refine Nat.le_of_not_lt fun hj ↦ ?_
  exact absurd (hbelow j hj t ht) (Nat.not_lt.2 hge)

end Approaches
end Machine
end Handheld
