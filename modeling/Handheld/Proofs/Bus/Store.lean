import Handheld.Proofs.Bus.Registers

/-!
# What a store does to the I/O registers

The memory map gives a store a meaning of its own at several addresses, and at two of them the store
reaches beyond its address: a sprite transfer fills the sprite table, and work RAM is seen a second
time below it.  But nothing reaches into the last page: above the sprite table a byte of the image
changes only when the store is to its own address (`SystemBus.peek_write_of_ne`).  The I/O registers
stand there, and so does the request byte of the interrupts, of which a store keeps five bits
(`SystemBus.get_interruptFlag_write`).
-/

set_option autoImplicit false

namespace Handheld
namespace SystemBus

variable {a b : UInt16}

/-! ## Where the registers stand -/

theorem le_address (r : IoRegister) : 0xFF00 ≤ r.address := by
  cases r <;> decide

/-- Nothing answers in one place only. -/
theorem isUnused_eq_false (h : a < 0xFEA0 ∨ 0xFEFF < a) : isUnused a = false := by
  simp only [isUnused, Bool.and_eq_false_iff, decide_eq_false_iff_not, UInt16.not_le]
  exact h

/-- What an echo leads to is below the end of the sprite table. -/
theorem unecho_ne (hb : 0xFEA0 ≤ b) (h : b ≠ a) : b ≠ unecho a := by
  rw [unecho]
  split <;> grind

/-- The places in the sprite table are between its ends. -/
theorem spriteTable_ne {n : Nat} (hb : b < 0xFE00 ∨ 0xFEA0 ≤ b) (hn : n < spriteTableSize) :
    b ≠ spriteTable + UInt16.ofNat n := by
  have hlt : n < 160 := hn
  intro h
  have hnat := congrArg UInt16.toNat h
  rw [UInt16.toNat_add, UInt16.toNat_ofNat', spriteTable] at hnat
  rw [UInt16.lt_iff_toNat_lt, UInt16.le_iff_toNat_le] at hb
  simp only [UInt16.reduceToNat] at hb hnat
  omega

/-- The boot ROM covers the first page only. -/
theorem behind_of_le (bus : SystemBus) (ha : 0x100 ≤ a) : bus.behind a = bus.peek (unecho a) := by
  rw [behind]
  split
  · exact if_neg (UInt16.not_lt.2 ha)
  · rfl

theorem replace_of_le (bus : SystemBus) (v : UInt8) (ha : 0x100 ≤ a) :
    bus.replace a v = bus.poke (unecho a) v := by
  rw [replace]
  split
  · exact if_neg (UInt16.not_lt.2 ha)
  · rfl

/-- In the last page the processor reads what the image holds, the request byte apart. -/
theorem read_of_le (bus : SystemBus) (ha : 0xFF00 ≤ a) (h : a ≠ IoRegister.interruptFlag.address) :
    bus.read a = bus.peek a := by
  have hecho : unecho a = a := if_neg (by grind)
  rw [read, isUnused_eq_false (Or.inr (by grind)), if_neg Bool.false_ne_true, if_neg h,
    behind_of_le bus (by grind), hecho]

/-! ## Stores -/

/-- A transfer fills the sprite table and changes nothing else. -/
theorem peek_copySprites (bus : SystemBus) (page : UInt8) {n : Nat} (hn : n ≤ spriteTableSize)
    (hb : b < 0xFE00 ∨ 0xFEA0 ≤ b) : (bus.copySprites page n).peek b = bus.peek b := by
  induction n with
  | zero => rfl
  | succ n ih =>
    rw [copySprites, peek_poke_of_ne _ _ (spriteTable_ne hb hn), ih (by omega)]

/-- A transfer touches the image only. -/
theorem copySprites_eq (bus : SystemBus) (page : UInt8) (n : Nat) :
    bus.copySprites page n = { bus with memory := (bus.copySprites page n).memory } := by
  induction n with
  | zero => rfl
  | succ n ih =>
    rw [copySprites, ih]
    rfl

theorem peek_refreshJoypad (bus : SystemBus) (h : b ≠ IoRegister.joypad.address) :
    bus.refreshJoypad.peek b = bus.peek b := by
  rw [refreshJoypad]
  exact peek_poke_of_ne bus _ h

theorem peek_replace_of_ne (bus : SystemBus) (v : UInt8) (hb : 0xFEA0 ≤ b) (h : b ≠ a) :
    (bus.replace a v).peek b = bus.peek b := by
  have hpoke : (bus.poke (unecho a) v).peek b = bus.peek b :=
    peek_poke_of_ne bus v (unecho_ne hb h)
  rw [replace]
  split
  · split
    · rfl
    · exact hpoke
  · exact hpoke

/-- **Above the sprite table a store changes the byte it is to, and no other.** -/
theorem peek_write_of_ne (bus : SystemBus) (v : UInt8) (hb : 0xFEA0 ≤ b) (h : b ≠ a) :
    (bus.write a v).peek b = bus.peek b := by
  rw [write]
  split
  · rfl
  split
  · rename_i ha
    rw [peek_refreshJoypad _ (ha ▸ h), peek_poke_of_ne _ _ h]
  split
  · exact peek_poke_of_ne bus _ h
  split
  · exact peek_poke_of_ne bus _ h
  split
  · rw [peek_copySprites _ _ (Nat.le_refl _) (Or.inr hb), peek_poke_of_ne _ _ h]
  split
  · dsimp only
    split <;> exact peek_poke_of_ne bus _ h
  · exact peek_replace_of_ne bus v hb h

theorem get_write_of_ne (bus : SystemBus) (v : UInt8) {r : IoRegister} (h : r.address ≠ a) :
    (bus.write a v).get r = bus.get r :=
  peek_write_of_ne bus v (UInt16.le_trans (by decide) (le_address r)) h

/-- Of what is stored to the request byte, five bits are kept. -/
theorem write_interruptFlag (bus : SystemBus) (v : UInt8) :
    bus.write IoRegister.interruptFlag.address v = bus.set .interruptFlag (v &&& 0x1F) := rfl

/-- A store to a register without a meaning of its own sets it. -/
theorem write_plain (bus : SystemBus) {r : IoRegister} (v : UInt8)
    (h : r ∉ [.joypad, .divider, .interruptFlag, .spriteTransfer, .bootOff]) :
    bus.write r.address v = bus.set r v := by
  obtain ⟨memory, bootRom, directions, buttons, dividerReset⟩ := bus
  cases bootRom <;> cases r <;> first | exact absurd (by decide) h | rfl

theorem get_interruptFlag_write (bus : SystemBus) (a : UInt16) (v : UInt8) :
    (bus.write a v).get .interruptFlag =
      if a = IoRegister.interruptFlag.address then v &&& 0x1F else bus.get .interruptFlag := by
  split
  · rename_i h
    rw [h, write_interruptFlag, get_set_self]
  · rename_i h
    exact get_write_of_ne bus v (Ne.symm h)

end SystemBus
end Handheld
