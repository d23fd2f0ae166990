import Handheld.CommandLine.Run
import Handheld.Proofs.Emulator.Acts
import Mathlib.Data.Finset.Card
import Mathlib.Data.List.Perm.Basic

/-!
# The breakpoint table is a bounded set

The table is a list, but the only thing that can be asked of it is whether an address is in it, and
as long as no address is in it twice that is a question about a set.  `DebuggerCall.mark` says what
each call of the debugger does to that set, and `Breakpoints.Lists` that a table is a list of it:
each element once, and no more than there is room for.  Every call keeps this
(`Breakpoints.Lists.apply`), so any number of calls do.

Taking an address out moves the last one into its place, so the list is not in the order of
insertion.  It is a permutation of the list without the address (`Breakpoints.removeAt_perm`), and
of the order nothing else is used.

A table that is full refuses only what it does not hold.  So how many of a list of addresses find
room depends on how many different ones there are (`Debugger.placements_isSet_iff`).
-/

set_option autoImplicit false

namespace Handheld

/-! ## The set -/

/-- The set with an address added, unless sixteen others are in it. -/
def markIfRoom (marks : Finset UInt16) (a : UInt16) : Finset UInt16 :=
  if 16 ≤ (marks.erase a).card then marks else insert a marks

/-- The set of breakpoints after a call. -/
def DebuggerCall.mark (marks : Finset UInt16) : DebuggerCall → Finset UInt16
  | addBreakpoint a => markIfRoom marks a
  | toggleBreakpoint a => if a ∈ marks then marks.erase a else markIfRoom marks a
  | clearBreakpoints => ∅
  | enableSingleStep | toggleSingleStep | requestStep => marks

theorem markIfRoom_of_mem {marks : Finset UInt16} {a : UInt16} (h : a ∈ marks) :
    markIfRoom marks a = marks := by
  rw [markIfRoom, Finset.insert_eq_of_mem h, ite_self]

theorem markIfRoom_of_notMem {marks : Finset UInt16} {a : UInt16} (h : a ∉ marks) :
    markIfRoom marks a = if 16 ≤ marks.card then marks else insert a marks := by
  rw [markIfRoom, Finset.erase_eq_of_notMem h]

theorem markIfRoom_of_card_le {marks : Finset UInt16} {a : UInt16}
    (h : (insert a marks).card ≤ 16) : markIfRoom marks a = insert a marks := by
  by_cases ha : a ∈ marks
  · rw [markIfRoom_of_mem ha, Finset.insert_eq_of_mem ha]
  · rw [Finset.card_insert_of_notMem ha] at h
    rw [markIfRoom_of_notMem ha, if_neg (by omega)]

namespace Breakpoints

variable {t : Breakpoints} {marks : Finset UInt16}

/-! ## Tables of a set -/

/-- A table lists a set: each element once. -/
structure Lists (t : Breakpoints) (marks : Finset UInt16) : Prop where
  nodup : t.addresses.Nodup
  mem_iff : ∀ a, a ∈ t.addresses ↔ a ∈ marks
  length_le : t.addresses.length ≤ 16

theorem Lists.card_eq (h : t.Lists marks) : marks.card = t.addresses.length := by
  have hmarks : t.addresses.toFinset = marks :=
    Finset.ext fun a ↦ List.mem_toFinset.trans (h.mem_iff a)
  rw [← hmarks, List.toFinset_card_of_nodup h.nodup]

theorem lists_empty : Lists {} ∅ where
  nodup := List.nodup_nil
  mem_iff _ := by simp
  length_le := Nat.zero_le _

/-! ## Putting in -/

theorem add_of_mem {a : UInt16} (h : a ∈ t.addresses) : t.add a = (.set, t) := by
  rw [add, if_pos ((contains_iff t a).2 h)]

theorem add_of_notMem {a : UInt16} (h : a ∉ t.addresses) :
    t.add a =
      if t.addresses.length < 16 then (.set, ⟨t.addresses ++ [a]⟩) else (.refused, t) := by
  rw [add, if_neg fun hin ↦ h ((contains_iff t a).1 hin)]
  rfl

/-- **Putting an address in adds it to the set**, if there is room. -/
theorem Lists.add (h : t.Lists marks) (a : UInt16) : (t.add a).2.Lists (markIfRoom marks a) := by
  by_cases ha : a ∈ t.addresses
  · rw [add_of_mem ha, markIfRoom_of_mem ((h.mem_iff a).1 ha)]
    exact h
  · rw [add_of_notMem ha, markIfRoom_of_notMem fun hin ↦ ha ((h.mem_iff a).2 hin), h.card_eq]
    by_cases hroom : t.addresses.length < 16
    · rw [if_pos hroom, if_neg (Nat.not_le.2 hroom)]
      refine ⟨?_, fun b ↦ ?_, ?_⟩
      · exact List.nodup_append_comm.1 (List.nodup_cons.2 ⟨ha, h.nodup⟩)
      · rw [List.mem_append, List.mem_singleton, Finset.mem_insert, h.mem_iff, or_comm]
      · rw [List.length_append]
        exact hroom
    · rw [if_neg hroom, if_pos (Nat.not_lt.1 hroom)]
      exact h

/-- The answer says whether the address is in the table afterwards. -/
theorem isSet_add (t : Breakpoints) (a : UInt16) : (t.add a).1.isSet = (t.add a).2.contains a := by
  by_cases ha : a ∈ t.addresses
  · rw [add_of_mem ha, (contains_iff t a).2 ha]
    rfl
  · rw [add_of_notMem ha]
    split
    · exact ((contains_iff _ a).2 (List.mem_append_right _ (List.mem_singleton_self a))).symm
    · exact (Bool.eq_false_iff.2 fun hin ↦ ha ((contains_iff t a).1 hin)).symm

/-- A table that refuses an address stays as it is. -/
theorem add_of_not_isSet {a : UInt16} (h : (t.add a).1.isSet = false) : (t.add a).2 = t := by
  by_cases ha : a ∈ t.addresses
  · rw [add_of_mem ha]
  · rw [add_of_notMem ha] at h ⊢
    split at h
    · cases h
    · rename_i hroom
      rw [if_neg hroom]

/-! ## Taking out -/

/-- **The last element fills the gap**: but for the order it is the list without the element. -/
theorem removeAt_perm {addresses : List UInt16} {place : Nat} (h : place < addresses.length) :
    (removeAt addresses place).Perm (addresses.eraseIdx place) := by
  rcases List.eq_nil_or_concat' addresses with rfl | ⟨front, last, rfl⟩
  · cases h
  · have hremove : removeAt (front ++ [last]) place =
        ((front ++ [last]).set place last).dropLast := by
      rw [removeAt, List.getLast?_concat]
    rw [hremove]
    rw [List.length_append] at h
    rcases Nat.lt_succ_iff_lt_or_eq.1 h with hlt | rfl
    · rw [List.set_append_left _ _ hlt, List.dropLast_concat,
        List.eraseIdx_append_of_lt_length hlt]
      exact (List.set_perm_cons_eraseIdx hlt last).trans (List.perm_append_singleton _ _).symm
    · have hlast : ((front ++ [last]).set front.length last) = front ++ [last] := by simp
      have herase : (front ++ [last]).eraseIdx front.length = front := by
        rw [List.eraseIdx_append_of_length_le (Nat.le_refl _), Nat.sub_self]
        exact List.append_nil front
      rw [hlast, List.dropLast_concat, herase]

theorem removeAt_idxOf_perm {addresses : List UInt16} {a : UInt16} (h : a ∈ addresses) :
    (removeAt addresses (addresses.idxOf a)).Perm (addresses.erase a) := by
  rw [List.erase_eq_eraseIdx_of_idxOf rfl]
  exact removeAt_perm (List.idxOf_lt_length_of_mem h)

theorem toggle_of_mem {a : UInt16} (h : a ∈ t.addresses) :
    t.toggle a = (.cleared, ⟨removeAt t.addresses (t.addresses.idxOf a)⟩) := by
  rw [toggle, if_pos ((contains_iff t a).2 h)]

theorem toggle_of_notMem {a : UInt16} (h : a ∉ t.addresses) : t.toggle a = t.add a := by
  rw [toggle, if_neg fun hin ↦ h ((contains_iff t a).1 hin)]

/-- **A toggle takes an element out of the set**, and puts in what is not one. -/
theorem Lists.toggle (h : t.Lists marks) (a : UInt16) :
    (t.toggle a).2.Lists (if a ∈ marks then marks.erase a else markIfRoom marks a) := by
  by_cases ha : a ∈ t.addresses
  · rw [toggle_of_mem ha, if_pos ((h.mem_iff a).1 ha)]
    have hperm := removeAt_idxOf_perm ha
    refine ⟨hperm.nodup_iff.2 (h.nodup.erase a), fun b ↦ ?_, ?_⟩
    · rw [hperm.mem_iff, h.nodup.mem_erase_iff, Finset.mem_erase, h.mem_iff]
    · rw [hperm.length_eq]
      exact (List.length_erase_le).trans h.length_le
  · rw [toggle_of_notMem ha, if_neg fun hin ↦ ha ((h.mem_iff a).2 hin)]
    exact h.add a

/-- The answer says whether the address is in the table afterwards. -/
theorem Lists.isSet_toggle (h : t.Lists marks) (a : UInt16) :
    (t.toggle a).1.isSet = (t.toggle a).2.contains a := by
  by_cases ha : a ∈ t.addresses
  · have hout : a ∉ (t.toggle a).2.addresses := by
      rw [(h.toggle a).mem_iff, if_pos ((h.mem_iff a).1 ha)]
      exact Finset.notMem_erase a marks
    rw [Bool.eq_false_iff.2 fun hin ↦ hout ((contains_iff _ a).1 hin), toggle_of_mem ha]
    rfl
  · rw [toggle_of_notMem ha]
    exact isSet_add t a

theorem toggle_of_refused {a : UInt16} (h : (t.toggle a).1 = .refused) : (t.toggle a).2 = t := by
  by_cases ha : a ∈ t.addresses
  · rw [toggle_of_mem ha] at h
    cases h
  · rw [toggle_of_notMem ha] at h ⊢
    refine add_of_not_isSet ?_
    rw [h]
    rfl

/-! ## Calls of the debugger -/

/-- **Every call keeps the table a list of the set.** -/
theorem Lists.apply {d : Debugger} (h : d.breakpoints.Lists marks) (c : DebuggerCall) :
    (c.apply d).breakpoints.Lists (c.mark marks) := by
  cases c with
  | addBreakpoint a => exact h.add a
  | toggleBreakpoint a => exact h.toggle a
  | clearBreakpoints => exact lists_empty
  | enableSingleStep => exact h
  | toggleSingleStep => exact h
  | requestStep => exact h

theorem Lists.foldl_apply {d : Debugger} (h : d.breakpoints.Lists marks)
    (calls : List DebuggerCall) :
    (calls.foldl DebuggerCall.apply d).breakpoints.Lists (calls.foldl DebuggerCall.mark marks) := by
  induction calls generalizing d marks with
  | nil => exact h
  | cons c calls ih => exact ih (h.apply c)

end Breakpoints

/-! ## Many breakpoints at once -/

namespace Debugger

variable {d : Debugger} {marks : Finset UInt16}

/-- What becomes of some addresses that are added one after another. -/
def placements (d : Debugger) : List UInt16 → List Placement
  | [] => []
  | a :: rest => (d.addBreakpoint a).1 :: (d.addBreakpoint a).2.placements rest

/-- An address finds room exactly if the set with it is not too large. -/
theorem isSet_addBreakpoint_iff (h : d.breakpoints.Lists marks) (a : UInt16) :
    (d.addBreakpoint a).1.isSet = true ↔ (insert a marks).card ≤ 16 := by
  have hset : (d.addBreakpoint a).1.isSet = true ↔ a ∈ markIfRoom marks a := by
    rw [← (h.add a).mem_iff, ← Breakpoints.contains_iff, ← Breakpoints.isSet_add]
    rfl
  rw [hset]
  constructor
  · intro hin
    by_cases ha : a ∈ marks
    · rw [Finset.insert_eq_of_mem ha, h.card_eq]
      exact h.length_le
    · rw [markIfRoom_of_notMem ha] at hin
      split at hin
      · exact absurd hin ha
      · rw [Finset.card_insert_of_notMem ha]
        omega
  · intro hle
    rw [markIfRoom_of_card_le hle]
    exact Finset.mem_insert_self a marks

/-- **Some addresses find room**, all of them, exactly if there are not too many different ones. -/
theorem placements_isSet_iff (h : d.breakpoints.Lists marks) (addresses : List UInt16) :
    (∀ p ∈ d.placements addresses, p.isSet = true) ↔
      (marks ∪ addresses.toFinset).card ≤ 16 := by
  induction addresses generalizing d marks with
  | nil =>
    have hle : marks.card ≤ 16 := h.card_eq ▸ h.length_le
    simpa [placements] using hle
  | cons a rest ih =>
    have hunion : marks ∪ (a :: rest).toFinset = insert a marks ∪ rest.toFinset := by
      rw [List.toFinset_cons, Finset.union_insert, Finset.insert_union]
    rw [placements, List.forall_mem_cons, isSet_addBreakpoint_iff h a, hunion]
    by_cases hroom : (insert a marks).card ≤ 16
    · have hlists : (d.addBreakpoint a).2.breakpoints.Lists (insert a marks) := by
        rw [← markIfRoom_of_card_le hroom]
        exact h.add a
      rw [ih hlists]
      exact and_iff_right hroom
    · refine iff_of_false (fun hall ↦ hroom hall.1) fun hle ↦ hroom ?_
      exact (Finset.card_le_card Finset.subset_union_left).trans hle

/-- An address that is not refused is set: to add one takes nothing out. -/
theorem isSet_addBreakpoint_iff_ne_refused (d : Debugger) (a : UInt16) :
    (d.addBreakpoint a).1.isSet = true ↔ (d.addBreakpoint a).1 ≠ .refused := by
  have hadd : (d.breakpoints.add a).1 = .set ∨ (d.breakpoints.add a).1 = .refused := by
    by_cases ha : a ∈ d.breakpoints.addresses
    · rw [Breakpoints.add_of_mem ha]
      exact Or.inl rfl
    · rw [Breakpoints.add_of_notMem ha]
      split
      · exact Or.inl rfl
      · exact Or.inr rfl
  have hfst : (d.addBreakpoint a).1 = (d.breakpoints.add a).1 := rfl
  rw [hfst]
  rcases hadd with h | h <;> rw [h] <;> decide

/-- The command line takes its breakpoints exactly if all of them find room. -/
theorem setBreakpoints_isOk_iff (d : Debugger) (addresses : List UInt16) :
    (∃ d', Run.setBreakpoints d addresses = .ok d') ↔
      ∀ p ∈ d.placements addresses, p.isSet = true := by
  induction addresses generalizing d with
  | nil => exact iff_of_true ⟨d, rfl⟩ nofun
  | cons a rest ih =>
    rw [placements, List.forall_mem_cons, isSet_addBreakpoint_iff_ne_refused, Run.setBreakpoints]
    split
    · rename_i hadd
      rw [hadd]
      exact iff_of_false nofun fun hall ↦ hall.1 rfl
    · rename_i hne hadd
      rw [ih, hadd]
      exact (and_iff_right hne).symm

/-- **The breakpoint table is a bounded set.**  After any calls of a debugger that is new, no
address is in the list twice and no more than sixteen are in it, and those that are breakpoints are
those that the calls mark.  To add an address, or to toggle it, answers whether it is a breakpoint
afterwards, and if it is refused leaves the debugger as it was.  So the addresses of a list can all
be added to a new debugger, and the command line takes them as its breakpoints, exactly if there are
no more than sixteen different ones among them. -/
theorem breakpoints_of_calls (calls : List DebuggerCall) :
    let d : Debugger := calls.foldl DebuggerCall.apply {}
    d.breakpoints.addresses.Nodup ∧ d.breakpoints.addresses.length ≤ 16 ∧
      (∀ a, d.hasBreakpoint a = true ↔ a ∈ calls.foldl DebuggerCall.mark ∅) ∧
      (∀ a, (d.addBreakpoint a).1.isSet = (d.addBreakpoint a).2.hasBreakpoint a ∧
        (d.toggleBreakpoint a).1.isSet = (d.toggleBreakpoint a).2.hasBreakpoint a) ∧
      (∀ a, ((d.addBreakpoint a).1.isSet = false → (d.addBreakpoint a).2 = d) ∧
        ((d.toggleBreakpoint a).1 = .refused → (d.toggleBreakpoint a).2 = d)) ∧
      ∀ addresses : List UInt16,
        ((∀ p ∈ placements {} addresses, p.isSet = true) ↔ addresses.toFinset.card ≤ 16) ∧
          ((∃ d', Run.setBreakpoints {} addresses = .ok d') ↔ addresses.toFinset.card ≤ 16) := by
  intro d
  have hlists : d.breakpoints.Lists (calls.foldl DebuggerCall.mark ∅) :=
    Breakpoints.lists_empty.foldl_apply calls
  have hkept {t : Breakpoints} (ht : t = d.breakpoints) : { d with breakpoints := t } = d := by
    rw [ht]
  have hroom (addresses : List UInt16) :
      (∀ p ∈ placements {} addresses, p.isSet = true) ↔ addresses.toFinset.card ≤ 16 := by
    rw [placements_isSet_iff Breakpoints.lists_empty, Finset.empty_union]
  refine ⟨hlists.nodup, hlists.length_le, fun a ↦ ?_, fun a ↦ ⟨?_, ?_⟩, fun a ↦ ⟨?_, ?_⟩,
    fun addresses ↦ ⟨hroom addresses, ?_⟩⟩
  · exact (Breakpoints.contains_iff d.breakpoints a).trans (hlists.mem_iff a)
  · exact Breakpoints.isSet_add d.breakpoints a
  · exact hlists.isSet_toggle a
  · exact fun h ↦ hkept (Breakpoints.add_of_not_isSet h)
  · exact fun h ↦ hkept (Breakpoints.toggle_of_refused h)
  · rw [setBreakpoints_isOk_iff, hroom]

/-- Of seventeen addresses the last is refused; but one that is there already is not refused by a
full table. -/
example :
    (placements {} ((List.range 17).map UInt16.ofNat)).map Placement.isSet =
        List.replicate 16 true ++ [false] ∧
      (placements {} ((List.range 16).map UInt16.ofNat ++ [3])).map Placement.isSet =
        List.replicate 17 true := by
  decide +kernel

end Debugger
end Handheld
