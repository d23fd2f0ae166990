import Handheld.Debugger
import Mathlib.Data.List.DropRight

/-!
# The history holds the newest addresses

Addresses with numbers less than a whole memory apart are kept at different places
(`History.place_ne`), so to record one overwrites none of those that are still to be shown except
the oldest.  So recording an address adds it to the list that is shown, at the end, and of that list
the last eight are shown afterwards (`History.recent_record`).  This needs no invariant: whatever a
history shows, it goes on from there.
-/

set_option autoImplicit false

namespace Handheld

/-- Of the last elements of a list, and others after it, the same are last. -/
theorem rtake_rtake_append {α : Type} (n : Nat) (before rest : List α) :
    (before.rtake n ++ rest).rtake n = (before ++ rest).rtake n := by
  rw [List.rtake_eq_reverse_take_reverse, List.rtake_eq_reverse_take_reverse,
    List.rtake_eq_reverse_take_reverse]
  congr 1
  rw [List.reverse_append, List.reverse_append, List.reverse_reverse, List.take_append,
    List.take_append, List.take_take, Nat.min_eq_left (Nat.sub_le _ _)]

namespace History

variable {h : History}

theorem place_ne {i j : Nat} (hlt : i < j) (hnear : j < i + historySize) : place i ≠ place j := by
  intro he
  have hmod : i % 8 = j % 8 := congrArg Fin.val he
  rw [historySize] at hnear
  omega

theorem get_slots_record (h : History) (a : UInt16) (p : Fin historySize) :
    (h.record a).slots.get p = if p = place h.count then a else h.slots.get p := by
  have hset : (h.record a).slots.get p =
      if (place h.count).val = p.val then a else h.slots.get p :=
    Vector.getElem_set (place h.count).isLt p.isLt
  exact hset.trans (if_congr (Fin.ext_iff.symm.trans eq_comm) rfl rfl)

/-- What is kept at the place of the address with some number. -/
def kept (h : History) (i : Nat) : UInt16 := h.slots.get (place i)

/-- There is the address that is recorded last, or an older one. -/
theorem kept_record (h : History) (a : UInt16) {i : Nat} (hle : i ≤ h.count)
    (hnear : h.count < i + historySize) :
    (h.record a).kept i = if i = h.count then a else h.kept i := by
  rw [kept, get_slots_record]
  rcases Nat.lt_or_eq_of_le hle with hlt | rfl
  · rw [if_neg (place_ne hlt hnear), if_neg (Nat.ne_of_lt hlt), kept]
  · rw [if_pos rfl, if_pos rfl]

theorem length_recent (h : History) : h.recent.length = h.known := by
  rw [recent, List.length_map, List.length_range]

theorem getElem_recent (h : History) {k : Nat} (hk : k < h.recent.length) :
    h.recent[k] = h.kept (h.count - h.known + k) := by
  simp only [recent, List.getElem_map, List.getElem_range]
  rfl

/-- **A history shows what it has shown, and what is recorded after that**, as far as there is
room. -/
theorem recent_record (h : History) (a : UInt16) :
    (h.record a).recent = (h.recent ++ [a]).rtake historySize := by
  have hcount : (h.record a).count = h.count + 1 := rfl
  have hknown : h.known = min 8 h.count := rfl
  have hknown' : (h.record a).known = min 8 (h.count + 1) := rfl
  have hlength : (h.recent ++ [a]).length = h.known + 1 := by
    rw [List.length_append, length_recent, List.length_singleton]
  refine List.ext_getElem ?_ fun k hk hk' ↦ ?_
  · rw [length_recent, List.rtake, List.length_drop, hlength, historySize]
    omega
  · rw [length_recent] at hk
    -- the same place in the list before, which is the end if the new address is there
    obtain ⟨j, hj⟩ : ∃ j, (h.recent ++ [a]).length - historySize + k = j := ⟨_, rfl⟩
    have hplace : (h.record a).count - (h.record a).known + k = h.count - h.known + j := by
      rw [hlength, historySize] at hj
      omega
    have hj' : j ≤ h.known := by
      rw [hlength, historySize] at hj
      omega
    rw [getElem_recent]
    simp only [List.rtake, List.getElem_drop, hplace, hj]
    rw [kept_record h a (by omega) (by rw [historySize]; omega), List.getElem_append]
    rcases Nat.lt_or_eq_of_le hj' with hlt | rfl
    · rw [if_neg (by omega), dif_pos (by rw [length_recent]; exact hlt), getElem_recent]
    · rw [if_pos (by omega), dif_neg (by rw [length_recent]; exact Nat.lt_irrefl _)]
      exact (List.getElem_singleton _).symm

theorem recent_foldl_record (h : History) (addresses : List UInt16) :
    (addresses.foldl record h).recent = (h.recent ++ addresses).rtake historySize := by
  induction addresses generalizing h with
  | nil =>
    have hle : h.recent.length ≤ historySize := by
      rw [length_recent]
      exact Nat.min_le_left _ _
    rw [List.append_nil, List.rtake, Nat.sub_eq_zero_of_le hle]
    rfl
  | cons a rest ih =>
    rw [List.foldl_cons, ih, recent_record, rtake_rtake_append, List.append_assoc]
    rfl

end History
end Handheld
