import Handheld.Proofs.Bus.Store
import Handheld.Proofs.Cpu.Stores

/-!
# The cartridge and the boot ROM under stores

Nothing is ever stored below `0x8000`: a store to such an address is dropped, and no store to another
one leads there (`SystemBus.peek_write_of_lt`).  The boot ROM is not stored to either.  A store can
only switch it off, and one store does: that of a byte other than zero to its register
(`SystemBus.bootRom_write`).  There is no store that brings it back.

What is true of one store is true of any number of them (`SystemBus.bootRom_replay`,
`SystemBus.peek_replay_of_lt`), and so of a step of the processor, which acts on its bus by stores
alone.
-/

set_option autoImplicit false

namespace Handheld
namespace SystemBus

variable {a b : UInt16}

/-! ## The cartridge -/

/-- What an echo leads to is above the cartridge. -/
theorem le_unecho (ha : 0x8000 ≤ a) : 0x8000 ≤ unecho a := by
  rw [unecho]
  split <;> grind

theorem ne_of_lt_of_le (hb : b < 0x8000) (ha : 0x8000 ≤ a) : b ≠ a := by
  rintro rfl
  exact absurd hb (UInt16.not_lt.2 ha)

/-- **The cartridge is read-only.** -/
theorem peek_write_of_lt (bus : SystemBus) (a : UInt16) (v : UInt8) (hb : b < 0x8000) :
    (bus.write a v).peek b = bus.peek b := by
  rw [write]
  split
  · rfl
  rename_i ha
  have hpoke (bus : SystemBus) (v : UInt8) : (bus.poke a v).peek b = bus.peek b :=
    peek_poke_of_ne bus v (ne_of_lt_of_le hb (by grind))
  split
  · rw [peek_refreshJoypad _ (ne_of_lt_of_le hb (by decide)), hpoke]
  split
  · exact hpoke bus 0
  split
  · exact hpoke bus _
  split
  · rw [peek_copySprites _ _ (Nat.le_refl _) (Or.inl (by grind)), hpoke]
  split
  · dsimp only
    split <;> exact hpoke bus v
  · rw [replace_of_le bus v (by grind)]
    exact peek_poke_of_ne bus v (ne_of_lt_of_le hb (le_unecho (by grind)))

/-! ## The boot ROM -/

theorem bootRom_copySprites (bus : SystemBus) (page : UInt8) (n : Nat) :
    (bus.copySprites page n).bootRom = bus.bootRom := by
  rw [copySprites_eq]

/-- **A store switches the boot ROM off or leaves it as it is.** -/
theorem bootRom_write (bus : SystemBus) (a : UInt16) (v : UInt8) :
    (bus.write a v).bootRom =
      if a = IoRegister.bootOff.address ∧ v ≠ 0 then none else bus.bootRom := by
  by_cases ha : a = IoRegister.bootOff.address
  · subst ha
    show (if v = 0 then bus.poke _ v else _).bootRom = _
    by_cases hv : v = 0
    · rw [if_pos hv, if_neg fun h ↦ h.2 hv]
      rfl
    · rw [if_neg hv, if_pos ⟨rfl, hv⟩]
  · rw [if_neg fun h ↦ ha h.1, write, if_neg ha]
    split
    · rfl
    split
    · rfl
    split
    · rfl
    split
    · rfl
    split
    · exact bootRom_copySprites _ _ _
    · rw [replace_of_le bus v (by grind)]
      rfl

/-! ## What the processor sees -/

/-- Below `0x8000` the processor reads the boot ROM, where it is mapped, and else the image. -/
theorem read_of_lt (bus : SystemBus) (ha : a < 0x8000) :
    bus.read a =
      match bus.bootRom with
      | some boot => if a < 0x100 then boot.read a.toUInt8 else bus.peek a
      | none => bus.peek a := by
  have hunused : isUnused a = false := isUnused_eq_false (Or.inl (by grind))
  have hecho : unecho a = a := if_neg (by grind)
  have hread : bus.read a = bus.behind a := by
    rw [read, hunused, if_neg Bool.false_ne_true, if_neg (ne_of_lt_of_le ha (by decide))]
  rw [hread]
  cases hboot : bus.bootRom with
  | none => simp only [behind, hboot, hecho]
  | some boot => simp only [behind, hboot, hecho]

/-! ## Many stores -/

theorem peek_replay_of_lt (bus : SystemBus) (stores : List (UInt16 × UInt8)) (hb : b < 0x8000) :
    (Bus.replay bus stores).peek b = bus.peek b := by
  induction stores generalizing bus with
  | nil => rfl
  | cons store stores ih => exact (ih _).trans (peek_write_of_lt bus store.1 store.2 hb)

/-- Some of the stores switches the boot ROM off. -/
def SwitchesBootOff (stores : List (UInt16 × UInt8)) : Prop :=
  ∃ v ≠ 0, (IoRegister.bootOff.address, v) ∈ stores

/-- Stores that do not switch the boot ROM off keep it. -/
theorem bootRom_replay (bus : SystemBus) {stores : List (UInt16 × UInt8)}
    (h : ¬SwitchesBootOff stores) : (Bus.replay bus stores).bootRom = bus.bootRom := by
  induction stores generalizing bus with
  | nil => rfl
  | cons store stores ih =>
    obtain ⟨a, v⟩ := store
    have hrest : ¬SwitchesBootOff stores := fun ⟨w, hw, hmem⟩ ↦
      h ⟨w, hw, List.mem_cons_of_mem _ hmem⟩
    have hfirst : ¬(a = IoRegister.bootOff.address ∧ v ≠ 0) := by
      rintro ⟨rfl, hv⟩
      exact h ⟨v, hv, List.mem_cons_self⟩
    refine (ih (bus.write a v) hrest).trans ?_
    rw [bootRom_write, if_neg hfirst]

/-- One that does leaves none, whatever comes after it. -/
theorem bootRom_replay_of_switches (bus : SystemBus) {stores : List (UInt16 × UInt8)}
    (h : bus.bootRom = none ∨ SwitchesBootOff stores) :
    (Bus.replay bus stores).bootRom = none := by
  induction stores generalizing bus with
  | nil =>
    rcases h with h | ⟨v, -, hmem⟩
    · exact h
    · cases hmem
  | cons store stores ih =>
    obtain ⟨a, v⟩ := store
    refine ih (bus.write a v) ?_
    rcases h with h | ⟨w, hw, hmem⟩
    · exact Or.inl (by rw [bootRom_write, h, ite_self])
    · rcases List.mem_cons.1 hmem with heq | hmem
      · cases heq
        exact Or.inl (by rw [bootRom_write, if_pos ⟨rfl, hw⟩])
      · exact Or.inr ⟨w, hw, hmem⟩

end SystemBus
end Handheld
