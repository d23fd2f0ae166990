import Handheld.Proofs.Debugger.History
import Handheld.Proofs.Emulator.Acts

/-!
# The history is a ring

A history counts all addresses that have ever been recorded.  What it shows does not need that
number, but only the place where the next address goes, and which places have been written at all:
it is a `History.Ring`, whose mark goes round and round, and which shows what it has from the mark
on.  As long as there are empty places the oldest address is at place zero; from then on the oldest
is the one at the mark, which the next one overwrites.  `History.ring_record` and
`History.recent_ring` say that a history and its ring do and show the same.

The other calls of the debugger have nothing to do with the history
(`DebuggerUse.history_apply`), so what a debugger shows is what has been recorded, whatever has been
called in between (`Debugger.recent_of_uses`).
-/

set_option autoImplicit false

namespace Handheld
namespace History

/-! ## Rings -/

/-- Eight places, some of them still empty, and a mark at the one that is written next. -/
structure Ring where
  mark : Fin historySize := place 0
  slots : Fin historySize → Option UInt16 := fun _ ↦ none

namespace Ring

/-- The ring with an address written at the mark. -/
def record (r : Ring) (a : UInt16) : Ring :=
  ⟨place (r.mark + 1), Function.update r.slots r.mark (some a)⟩

/-- The addresses of a ring, once round from the mark on. -/
def recent (r : Ring) : List UInt16 :=
  (List.range historySize).filterMap fun i ↦ r.slots (place (r.mark + i))

end Ring

/-- The ring of a history: the places that have been written are those with a number less than the
count. -/
def ring (h : History) : Ring where
  mark := place h.count
  slots p := if p.val < h.count then some (h.slots.get p) else none

theorem ring_new : ring {} = {} := by
  simp [ring]

theorem place_place_add (n i : Nat) : place (place n + i) = place (n + i) :=
  Fin.ext (Nat.mod_add_mod n historySize i)

theorem place_add_size (n : Nat) : place (n + historySize) = place n :=
  Fin.ext (Nat.add_mod_right n historySize)

/-- **To record an address writes it at the mark.** -/
theorem ring_record (h : History) (a : UInt16) : (h.record a).ring = h.ring.record a := by
  have hcount : (h.record a).count = h.count + 1 := rfl
  have hmark : place (h.count + 1) = place (place h.count + 1) := (place_place_add h.count 1).symm
  rw [ring, Ring.record, hcount, ring, Ring.mk.injEq]
  refine ⟨hmark, funext fun p ↦ ?_⟩
  rw [get_slots_record, Function.update_apply]
  by_cases hp : p = place h.count
  · have hlt : p.val < h.count + 1 := by
      rw [hp]
      exact Nat.lt_succ_of_le (Nat.mod_le _ _)
    rw [if_pos hlt, if_pos hp, if_pos hp]
  · -- a place that is written for the first time is the mark
    have hiff : p.val < h.count + 1 ↔ p.val < h.count := by
      refine ⟨fun hlt ↦ (Nat.lt_succ_iff_lt_or_eq.1 hlt).resolve_right fun he ↦ hp ?_,
        Nat.lt_succ_of_lt⟩
      exact Fin.ext (he ▸ (Nat.mod_eq_of_lt p.isLt).symm)
    simp only [if_neg hp, hiff]

theorem ring_foldl_record (h : History) (addresses : List UInt16) :
    (addresses.foldl record h).ring = addresses.foldl Ring.record h.ring := by
  induction addresses generalizing h with
  | nil => rfl
  | cons a rest ih => rw [List.foldl_cons, ih, ring_record, List.foldl_cons]

/-- What is at a place some way round from the mark: the address that has been recorded a whole
round before that place is written again, or nothing if there has been no whole round yet. -/
theorem slots_ring (h : History) {i : Nat} (hi : i < historySize) :
    h.ring.slots (place (h.ring.mark + i)) =
      if historySize ≤ h.count + i then some (h.kept (h.count + i)) else none := by
  have hplace : place (h.ring.mark + i) = place (h.count + i) := place_place_add h.count i
  have hiff : (place (h.count + i)).val < h.count ↔ historySize ≤ h.count + i := by
    show (h.count + i) % 8 < h.count ↔ 8 ≤ h.count + i
    rw [historySize] at hi
    omega
  rw [hplace, ring]
  simp only [hiff]
  rfl

/-- **A ring shows what its history shows.** -/
theorem recent_ring (h : History) : h.ring.recent = h.recent := by
  obtain ⟨empty, hempty⟩ : ∃ empty, historySize = empty + h.known :=
    ⟨historySize - h.known, (Nat.sub_add_cancel (Nat.min_le_left _ _)).symm⟩
  have hknown : h.known = min historySize h.count := rfl
  have hskipped : (List.range empty).filterMap (fun i ↦ h.ring.slots (place (h.ring.mark + i))) =
      [] := by
    refine List.filterMap_eq_nil_iff.2 fun i hi ↦ ?_
    have hi := List.mem_range.1 hi
    rw [slots_ring h (by omega), if_neg (by omega)]
  have hshown (k : Nat) (hk : k < h.known) :
      h.ring.slots (place (h.ring.mark + (empty + k))) =
        some h.slots[place (h.count - h.known + k)] := by
    have hround : h.count + (empty + k) = h.count - h.known + k + historySize := by omega
    rw [slots_ring h (by omega), if_pos (by omega), kept, hround, place_add_size]
    rfl
  have hrange : List.range historySize =
      List.range empty ++ (List.range h.known).map (empty + ·) := by
    rw [hempty, List.range_add]
  rw [Ring.recent, recent, hrange, List.filterMap_append, hskipped, List.nil_append,
    List.filterMap_map, ← List.filterMap_eq_map]
  exact List.filterMap_congr fun k hk ↦ hshown k (List.mem_range.1 hk)

end History

/-! ## Calls in between -/

/-- What is done with a debugger: an address is recorded, an open request is taken, or it is
called. -/
inductive DebuggerUse where
  | record (a : UInt16)
  | takeRequest
  | call (c : DebuggerCall)

namespace DebuggerUse

/-- The debugger after it has been used. -/
def apply (d : Debugger) : DebuggerUse → Debugger
  | record a => d.record a
  | takeRequest => d.takeRequest.2
  | call c => c.apply d

/-- The address that is recorded. -/
def recorded? : DebuggerUse → Option UInt16
  | record a => some a
  | takeRequest | call _ => none

/-- **Only what is recorded goes into the history.** -/
theorem history_apply (d : Debugger) (u : DebuggerUse) :
    (u.apply d).history = u.recorded?.toList.foldl History.record d.history := by
  cases u with
  | record a => rfl
  | takeRequest => rfl
  | call c => cases c <;> rfl

theorem history_foldl_apply (d : Debugger) (uses : List DebuggerUse) :
    (uses.foldl apply d).history =
      (uses.filterMap recorded?).foldl History.record d.history := by
  induction uses generalizing d with
  | nil => rfl
  | cons u uses ih =>
    rw [List.foldl_cons, ih, history_apply, ← List.foldl_append]
    cases u <;> rfl

end DebuggerUse

namespace Debugger

/-- **The history holds the newest addresses.**  However a new debugger is used, it shows the last
addresses that have been recorded, in that order: all of them as long as they are no more than
eight, and from then on eight.  A ring of eight places, into which nothing but these addresses has
been written, shows the same.  No call of the debugger changes what is shown, and neither does a
request that is taken. -/
theorem recent_of_uses (uses : List DebuggerUse) :
    let d := uses.foldl DebuggerUse.apply {}
    let addresses := uses.filterMap DebuggerUse.recorded?
    d.recent <:+ addresses ∧ d.recent.length = min 8 addresses.length ∧
      (addresses.foldl History.Ring.record {}).recent = d.recent ∧
      (∀ c : DebuggerCall, (c.apply d).recent = d.recent) ∧ d.takeRequest.2.recent = d.recent := by
  intro d addresses
  have hhistory : d.history = addresses.foldl History.record {} :=
    DebuggerUse.history_foldl_apply {} uses
  have hrecent : d.recent = addresses.rtake 8 := by
    rw [recent, hhistory, History.recent_foldl_record]
    rfl
  have hlength : d.recent.length = min 8 addresses.length := by
    rw [hrecent, List.rtake, List.length_drop]
    omega
  have hring : (addresses.foldl History.Ring.record {}).recent = d.recent := by
    rw [← History.ring_new, ← History.ring_foldl_record, ← hhistory, History.recent_ring]
    rfl
  have hkept (u : DebuggerUse) (hu : u.recorded? = none) : (u.apply d).recent = d.recent := by
    rw [recent, DebuggerUse.history_apply, hu]
    rfl
  refine ⟨?_, hlength, hring, fun c ↦ hkept (.call c) rfl, hkept .takeRequest rfl⟩
  rw [hrecent]
  exact List.drop_suffix _ _

/-- The places are written for the second time, and breakpoints come and go. -/
example : ((List.range 19).foldl (fun d n ↦ (d.toggleBreakpoint 7).2.record (UInt16.ofNat n))
    ({} : Debugger)).recent = [11, 12, 13, 14, 15, 16, 17, 18] := by
  rfl

end Debugger
end Handheld
