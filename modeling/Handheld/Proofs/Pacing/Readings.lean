import Handheld.Pacing.Clock
import Mathlib.Algebra.GroupWithZero.Nat
import Mathlib.Data.List.Chain

/-!
# The answers of a pacer add up

A pacer answers the time since its last reading.  So its answers add up to the time from the first
reading to the last, however many readings there are in between, unless one of two things happens:
a reading goes back behind the one before, or comes so late after it that the answer is cut off.

`Pacer.last_add_deltas_add_lost` says that what is cut off is all that is lost, of any readings that
do not go back, whatever clock they are from.  A clock that is moved by hand does not go back, not
even when it comes to its end and stops there: `ManualClock.readings_eq` says that it shows how far
it has been moved, as far as it goes.

`Pacer.answers_telescope` puts the two together, for a pacer that reads such a clock while it is
moved, in any order.
-/

set_option autoImplicit false

namespace Handheld

/-- What is done with a clock that is moved by hand and has a pacer. -/
inductive ClockAct where
  /-- The clock is moved on by some milliseconds. -/
  | advance (ms : UInt64)
  /-- The pacer takes a reading of it. -/
  | read

/-! ## Readings that do not go back -/

namespace Pacer

/-- What a pacer answers to some readings, one after the other. -/
def deltas (p : Pacer) : List Nat → List Nat
  | [] => []
  | now :: rest => (p.read now).1 :: (p.read now).2.deltas rest

/-- The milliseconds of the gaps between these readings for which the answers have no room. -/
def lost (p : Pacer) : List Nat → Nat
  | [] => 0
  | now :: rest => (now - p.last - longestDelta) + (p.read now).2.lost rest

/-- A reading is the one before it, what is answered to it, and what is cut off from the answer. -/
theorem last_add_read_add_cut {p : Pacer} {now : Nat} (h : p.last ≤ now) :
    p.last + (p.read now).1 + (now - p.last - longestDelta) = now := by
  simp only [read, elapsed]
  omega

/-- **Nothing is lost but what is cut off.**  The last reading is the first one, all that has been
answered since, and all that has been cut off. -/
theorem last_add_deltas_add_lost {p : Pacer} {readings : List Nat}
    (h : (p.last :: readings).IsChain (· ≤ ·)) :
    p.last + (p.deltas readings).sum + p.lost readings = readings.getLastD p.last := by
  induction readings generalizing p with
  | nil => simp [deltas, lost]
  | cons now rest ih =>
    obtain ⟨hle, hrest⟩ := List.isChain_cons_cons.1 h
    have hfirst := last_add_read_add_cut hle
    have hnext := ih (p := (p.read now).2) hrest
    have hlast : (p.read now).2.last = now := rfl
    rw [hlast] at hnext
    rw [deltas, lost, List.sum_cons, List.getLastD_cons, ← hnext]
    omega

/-- Nothing is lost exactly if no gap is longer than the longest answer. -/
theorem lost_eq_zero_iff (p : Pacer) (readings : List Nat) :
    p.lost readings = 0 ↔ (p.last :: readings).IsChain fun a b ↦ b - a ≤ longestDelta := by
  induction readings generalizing p with
  | nil => simp [lost]
  | cons now rest ih =>
    rw [lost, Nat.add_eq_zero_iff, Nat.sub_eq_zero_iff_le, ih, List.isChain_cons_cons]
    rfl

end Pacer

/-! ## A clock that is moved by hand -/

namespace ManualClock

/-- What a clock shows, each time that it is read. -/
def readings (c : ManualClock) : List ClockAct → List Nat
  | [] => []
  | .advance ms :: acts => (c.advance ms.toNat).readings acts
  | .read :: acts => c.now :: c.readings acts

/-- How far a clock has been moved in all, each time that it is read. -/
def distances (moved : Nat) : List ClockAct → List Nat
  | [] => []
  | .advance ms :: acts => distances (moved + ms.toNat) acts
  | .read :: acts => moved :: distances moved acts

variable {start : Nat}

/-- To be moved twice is to be moved by the sum, also across the end. -/
theorem advance_advance (start moved ms : Nat) :
    (advance ⟨start⟩ moved).advance ms = advance ⟨start⟩ (moved + ms) := by
  simp only [advance, mk.injEq]
  omega

theorem advance_zero (h : start ≤ clockEnd) : advance ⟨start⟩ 0 = ⟨start⟩ := by
  simpa only [advance, mk.injEq, Nat.add_zero] using Nat.min_eq_left h

theorem readings_advance (start moved : Nat) (acts : List ClockAct) :
    (advance ⟨start⟩ moved).readings acts =
      (distances moved acts).map fun d ↦ min (start + d) clockEnd := by
  induction acts generalizing moved with
  | nil => rfl
  | cons act acts ih =>
    cases act with
    | advance ms => rw [readings, advance_advance, ih, distances]
    | read =>
      rw [readings, ih, distances, List.map_cons]
      rfl

/-- **A clock shows how far it has been moved**, up to its end. -/
theorem readings_eq (h : start ≤ clockEnd) (acts : List ClockAct) :
    readings ⟨start⟩ acts = (distances 0 acts).map fun d ↦ min (start + d) clockEnd := by
  rw [← readings_advance, advance_zero h]

theorem isChain_distances {least moved : Nat} (h : least ≤ moved) (acts : List ClockAct) :
    (least :: distances moved acts).IsChain (· ≤ ·) := by
  induction acts generalizing least moved with
  | nil => exact List.isChain_singleton least
  | cons act acts ih =>
    cases act with
    | advance ms => exact ih (Nat.le_add_right_of_le h)
    | read => exact List.isChain_cons_cons.2 ⟨h, ih (Nat.le_refl moved)⟩

/-- **A clock does not go back**: it is not moved back, and at its end it stays. -/
theorem isChain_readings (h : start ≤ clockEnd) (acts : List ClockAct) :
    (start :: readings ⟨start⟩ acts).IsChain (· ≤ ·) := by
  have hmoved := isChain_distances (Nat.le_refl 0) acts
  have hshown : ((0 :: distances 0 acts).map fun d ↦ min (start + d) clockEnd).IsChain (· ≤ ·) :=
    List.isChain_map_of_isChain _ (fun a b hab ↦ by omega) hmoved
  rwa [List.map_cons, ← readings_eq h, Nat.add_zero, Nat.min_eq_left h] at hshown

end ManualClock

/-! ## A pacer with such a clock -/

namespace Pacer

/-- What a pacer answers while its clock is moved and it takes readings. -/
def answers (p : Pacer) (c : ManualClock) : List ClockAct → List Nat
  | [] => []
  | .advance ms :: acts => p.answers (c.advance ms.toNat) acts
  | .read :: acts => (p.read c.now).1 :: (p.read c.now).2.answers c acts

/-- A pacer knows nothing of the clock but the readings. -/
theorem answers_eq (p : Pacer) (c : ManualClock) (acts : List ClockAct) :
    p.answers c acts = p.deltas (c.readings acts) := by
  induction acts generalizing p c with
  | nil => rfl
  | cons act acts ih =>
    cases act with
    | advance ms => rw [answers, ih, ManualClock.readings]
    | read => rw [answers, ih, ManualClock.readings, deltas]

/-- **The answers of a pacer add up.**  Let a clock start anywhere and be moved by hand, while a
pacer that has been made with it takes readings, in any order.  What the clock shows at each reading
is how far it has been moved, and its end at most.  The answers add up to no more than the time from
the start to the last reading, and to exactly that time if and only if no two readings in a row,
counting the start as the first one, are more than the longest answer apart. -/
theorem answers_telescope (start : UInt64) (acts : List ClockAct) :
    let clock : ManualClock := ⟨start.toNat⟩
    let answers := Pacer.answers ⟨clock.now⟩ clock acts
    let readings := clock.readings acts
    let last := readings.getLastD clock.now
    readings =
        (ManualClock.distances 0 acts).map (fun d ↦ min (start.toNat + d) (2 ^ 64 - 1)) ∧
      clock.now + answers.sum ≤ last ∧
      (answers.sum = last - clock.now ↔
        (clock.now :: readings).IsChain fun a b ↦ b - a ≤ 2 ^ 32 - 1) := by
  intro clock answers readings last
  have hstart : start.toNat ≤ clockEnd := Nat.le_pred_of_lt start.toNat_lt
  have hforward : (clock.now :: readings).IsChain (· ≤ ·) :=
    ManualClock.isChain_readings hstart acts
  have hsum : clock.now + answers.sum + lost ⟨clock.now⟩ readings = last := by
    have hall := last_add_deltas_add_lost (p := ⟨clock.now⟩) hforward
    rwa [← answers_eq] at hall
  have hexact : answers.sum = last - clock.now ↔ lost ⟨clock.now⟩ readings = 0 := by omega
  refine ⟨ManualClock.readings_eq hstart acts, by omega, ?_⟩
  exact hexact.trans (lost_eq_zero_iff ⟨clock.now⟩ readings)

/-- At the end of the clock there is nothing left to answer, and a gap that is too long is cut. -/
example : Pacer.answers ⟨0⟩ ⟨0⟩ [.advance 100, .read, .read, .advance 5000000000, .read,
    .advance 18446744073709551615, .advance 7, .read, .advance 1, .read] =
      [100, 0, 4294967295, 4294967295, 0] := rfl

end Pacer
end Handheld
