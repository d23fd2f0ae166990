import Handheld.Pacing.Speed
import Mathlib.Algebra.GroupWithZero.Nat
import Mathlib.Data.List.Induction
import Mathlib.Data.List.ReduceOption

/-!
# Every slice is measured once

A meter adds up slices of time until they fill a window, answers the ratio over them, and starts
again.  So slices fall into windows, one behind the other, each full with its last slice and not
before, and a rest that does not fill one yet; `SpeedMeter.Measured` says that this is what the
answers show.  The meter itself keeps nothing but two sums over the rest and the last answer.

With each slice that is recorded the rest grows by it (`SpeedMeter.Measured.stay`), or is closed by
it and becomes a window (`SpeedMeter.Measured.close`), so nothing is left out between two windows
and nothing is in both.
`SpeedMeter.measured_once` states this for any slices at all.  What the ratio of two sums is, as a
number, does not matter to it.
-/

set_option autoImplicit false

namespace Handheld
namespace SpeedMeter

/-- A slice of time, and the clock cycles it was given. -/
structure Slice where
  ms : Nat
  cycles : Nat

/-- The milliseconds of some slices together. -/
def totalMs (slices : List Slice) : Nat := (slices.map Slice.ms).sum

/-- The clock cycles of some slices together. -/
def totalCycles (slices : List Slice) : Nat := (slices.map Slice.cycles).sum

theorem totalMs_concat (slices : List Slice) (x : Slice) :
    totalMs (slices ++ [x]) = totalMs slices + x.ms := by simp [totalMs]

theorem totalCycles_concat (slices : List Slice) (x : Slice) :
    totalCycles (slices ++ [x]) = totalCycles slices + x.cycles := by simp [totalCycles]

variable (policy : PacingPolicy)

/-- The ratio over some slices. -/
def ratioOver (slices : List Slice) : Float32 :=
  ratio policy.clockHz (totalMs slices) (totalCycles slices)

/-- Records one more slice: the answers so far, and the meter. -/
def recordNext (done : List (Option Float32) × SpeedMeter) (x : Slice) :
    List (Option Float32) × SpeedMeter :=
  let next := done.2.record policy x.ms x.cycles
  (done.1 ++ [next.1], next.2)

/-- Records slices with a new meter: the answer to each, and the meter after the last. -/
def recordAll (slices : List Slice) : List (Option Float32) × SpeedMeter :=
  slices.foldl (recordNext policy) ([], {})

theorem recordAll_concat (slices : List Slice) (x : Slice) :
    recordAll policy (slices ++ [x]) = recordNext policy (recordAll policy slices) x :=
  List.foldl_concat _ _ _ _

/-! ## Windows -/

/-- The slices do not fill a window. -/
def IsOpen (slices : List Slice) : Prop :=
  slices = [] ∨ totalMs slices < policy.speedWindowMs

/-- The slices fill a window with the last of them, and not before. -/
def Fills (slices : List Slice) : Prop :=
  ∃ front last, slices = front ++ [last] ∧ IsOpen policy front ∧
    policy.speedWindowMs ≤ totalMs slices

/-- The answers to the slices of a window: the ratio over them, when the last has been recorded. -/
def answersIn (window : List Slice) : List (Option Float32) :=
  window.dropLast.map (fun _ ↦ none) ++ [some (ratioOver policy window)]

/-- A new meter has recorded the slices, and its answers show that they fall into these windows and
this rest. -/
structure Measured (slices : List Slice) (windows : List (List Slice)) (rest : List Slice) :
    Prop where
  slices_eq : windows.flatten ++ rest = slices
  fills : ∀ window ∈ windows, Fills policy window
  isOpen : IsOpen policy rest
  answers_eq : (recordAll policy slices).1 =
    windows.flatMap (answersIn policy) ++ rest.map fun _ ↦ none
  elapsedMs_eq : (recordAll policy slices).2.elapsedMs = totalMs rest
  cycles_eq : (recordAll policy slices).2.cycles = totalCycles rest
  last_eq : (recordAll policy slices).2.last =
    (recordAll policy slices).1.reduceOption.getLast?

namespace Measured

variable {policy} {slices : List Slice} {windows : List (List Slice)} {rest : List Slice}

theorem nil (policy : PacingPolicy) : Measured policy [] [] [] where
  slices_eq := rfl
  fills := nofun
  isOpen := .inl rfl
  answers_eq := rfl
  elapsedMs_eq := rfl
  cycles_eq := rfl
  last_eq := rfl

/-- What the next slice is answered with: it is added to the rest. -/
theorem record_eq (h : Measured policy slices windows rest) (x : Slice) :
    (recordAll policy slices).2.record policy x.ms x.cycles =
      if policy.speedWindowMs ≤ totalMs (rest ++ [x]) then
        (some (ratioOver policy (rest ++ [x])), { last := some (ratioOver policy (rest ++ [x])) })
      else
        (none,
          { (recordAll policy slices).2 with
            elapsedMs := totalMs (rest ++ [x])
            cycles := totalCycles (rest ++ [x]) }) := by
  rw [SpeedMeter.record, h.elapsedMs_eq, h.cycles_eq, ratioOver, totalMs_concat,
    totalCycles_concat]
  dsimp only
  split
  next hopen => rw [if_neg (Nat.not_le.2 hopen)]
  next hfull => rw [if_pos (Nat.le_of_not_lt hfull)]

/-- A slice that fills the window makes a window of the rest. -/
theorem close (h : Measured policy slices windows rest) {x : Slice}
    (hfull : policy.speedWindowMs ≤ totalMs (rest ++ [x])) :
    Measured policy (slices ++ [x]) (windows ++ [rest ++ [x]]) [] := by
  have hrecord := recordAll_concat policy slices x
  rw [recordNext, h.record_eq, if_pos hfull] at hrecord
  dsimp only at hrecord
  have hfills : ∀ window ∈ windows ++ [rest ++ [x]], Fills policy window := by
    rintro window hmem
    rcases List.mem_append.1 hmem with hmem | hmem
    · exact h.fills window hmem
    · obtain rfl := List.mem_singleton.1 hmem
      exact ⟨rest, x, rfl, h.isOpen, hfull⟩
  exact
    { slices_eq := by simp [← h.slices_eq]
      fills := hfills
      isOpen := .inl rfl
      answers_eq := by
        rw [hrecord, h.answers_eq]
        simp [answersIn]
      elapsedMs_eq := congrArg (·.2.elapsedMs) hrecord
      cycles_eq := congrArg (·.2.cycles) hrecord
      last_eq := by
        rw [hrecord]
        simp [List.reduceOption_append] }

/-- A slice that does not fill it stays with the rest. -/
theorem stay (h : Measured policy slices windows rest) {x : Slice}
    (hopen : totalMs (rest ++ [x]) < policy.speedWindowMs) :
    Measured policy (slices ++ [x]) windows (rest ++ [x]) := by
  have hrecord := recordAll_concat policy slices x
  rw [recordNext, h.record_eq, if_neg (Nat.not_le.2 hopen)] at hrecord
  dsimp only at hrecord
  exact
    { slices_eq := by rw [← h.slices_eq, List.append_assoc]
      fills := h.fills
      isOpen := .inr hopen
      answers_eq := by
        rw [hrecord, h.answers_eq, List.append_assoc, List.map_append]
        rfl
      elapsedMs_eq := congrArg (·.2.elapsedMs) hrecord
      cycles_eq := congrArg (·.2.cycles) hrecord
      last_eq := by
        rw [hrecord]
        simp [List.reduceOption_append, h.last_eq] }

end Measured

theorem exists_measured (slices : List Slice) :
    ∃ windows rest, Measured policy slices windows rest := by
  induction slices using List.reverseRecOn with
  | nil => exact ⟨[], [], .nil policy⟩
  | append_singleton slices x ih =>
    obtain ⟨windows, rest, h⟩ := ih
    rcases Nat.lt_or_ge (totalMs (rest ++ [x])) policy.speedWindowMs with hopen | hfull
    · exact ⟨windows, rest ++ [x], h.stay hopen⟩
    · exact ⟨windows ++ [rest ++ [x]], [], h.close hfull⟩

/-- **Every slice is measured once.**  Whatever slices a new meter records, they fall into windows,
each full with its last slice and not before, and a rest that does not fill one.  The answer to the
last slice of a window is the ratio over exactly the slices of that window, and to any other slice
there is none; the meter keeps the last ratio that it has answered.  So the next slice is answered
with a ratio exactly if it fills up the rest, and then with the ratio over the rest and that
slice. -/
theorem measured_once (slices : List Slice) :
    let done := recordAll policy slices
    ∃ (windows : List (List Slice)) (rest : List Slice), windows.flatten ++ rest = slices ∧
      (∀ window ∈ windows, Fills policy window) ∧ IsOpen policy rest ∧
      done.1 = windows.flatMap (answersIn policy) ++ rest.map (fun _ ↦ none) ∧
      done.2.last = done.1.reduceOption.getLast? ∧
      ∀ x : Slice, (done.2.record policy x.ms x.cycles).1 =
        if policy.speedWindowMs ≤ totalMs (rest ++ [x]) then some (ratioOver policy (rest ++ [x]))
        else none := by
  intro done
  obtain ⟨windows, rest, h⟩ := exists_measured policy slices
  refine ⟨windows, rest, h.slices_eq, h.fills, h.isOpen, h.answers_eq, h.last_eq, fun x ↦ ?_⟩
  rw [h.record_eq, apply_ite Prod.fst]

/-- What is too long for a window closes it all the same, and nothing of it is kept for the next. -/
example : (recordAll { speedWindowMs := 20 } [⟨15, 60⟩, ⟨15, 60⟩, ⟨5, 20⟩, ⟨40, 160⟩]).1.map
    Option.isSome = [false, true, false, true] := rfl

end SpeedMeter
end Handheld
