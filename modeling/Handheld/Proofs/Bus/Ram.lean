import Handheld.Proofs.Bus.Overlay

/-!
# Plain memory

From the end of the cartridge to the end of the sprite table, and in the last page from `0xFF80` to
the byte before the last, an address is plain memory: what is stored there is read back, and is read
nowhere else than at the echo of the address.  On flat memory every address is like that; on the bus
of the handheld these are, work RAM and its echo among them (`SystemBus.read_write_of_isRam`).

`RamBus` is what the two buses have in common.  An address has a `home`, the place where its byte is
kept, and a store to plain memory is read at the addresses that have the same home.  The request
byte of the interrupts is not plain memory; of it the class says no more than a dispatch needs, that
a store to it is read at no other address and that requests can be taken back.
-/

set_option autoImplicit false

namespace Handheld

/-- The addresses of plain memory. -/
def IsRam (a : UInt16) : Prop := 0x8000 ≤ a ∧ a ≤ 0xFE9F ∨ 0xFF80 ≤ a ∧ a ≤ 0xFFFE

instance (a : UInt16) : Decidable (IsRam a) := inferInstanceAs (Decidable (_ ∨ _))

/-- A bus with the plain memory of the handheld, and with its request byte. -/
class RamBus (β : Type) [Bus β] where
  /-- Where the byte behind an address is kept. -/
  home : UInt16 → UInt16
  /-- What is kept in plain memory is behind no other kind of address. -/
  home_ne {a b : UInt16} : IsRam a → ¬IsRam b → home b ≠ home a
  /-- Neighbours do not share a place. -/
  home_succ_ne (a : UInt16) : home (a + 1) ≠ home a
  read_write (bus : β) {a : UInt16} (b : UInt16) (v : UInt8) : IsRam a →
    Bus.read (Bus.write bus a v) b = if home b = home a then v else Bus.read bus b
  read_requests_of_ne (bus : β) {b : UInt16} (v : UInt8) : b ≠ interruptFlagAddress →
    Bus.read (Bus.write bus interruptFlagAddress v) b = Bus.read bus b
  read_takeBack (bus : β) (source : Interrupt) :
    Bus.read (Bus.write bus interruptFlagAddress
        (Bus.read bus interruptFlagAddress &&& ~~~source.mask)) interruptFlagAddress =
      Bus.read bus interruptFlagAddress &&& ~~~source.mask

/-! ## Flat memory -/

instance : RamBus Memory where
  home a := a
  home_ne ha hb h := hb (h ▸ ha)
  home_succ_ne _ h := by grind
  read_write bus _ b v _ := bus.read_write _ b v
  read_requests_of_ne bus _ v hb := bus.read_write_of_ne v hb
  read_takeBack bus _ := bus.read_write_self _ _

/-! ## The bus of the handheld -/

namespace IsRam

variable {a : UInt16}

theorem le (h : IsRam a) : 0x8000 ≤ a := by
  rcases h with ⟨h, -⟩ | ⟨h, -⟩
  · exact h
  · exact UInt16.le_trans (by decide) h

theorem isUnused_eq (h : IsRam a) : SystemBus.isUnused a = false := by
  simp only [IsRam] at h
  exact SystemBus.isUnused_eq_false (by grind)

/-- No register stands in plain memory. -/
theorem ne_address (h : IsRam a) (r : IoRegister) : a ≠ r.address := by
  have hr : ¬IsRam r.address := by cases r <;> decide
  rintro rfl
  exact hr h

end IsRam

namespace SystemBus

variable {a b : UInt16}

theorem unecho_ne_of_not_isRam (ha : IsRam a) (hb : ¬IsRam b) : unecho b ≠ unecho a := by
  simp only [IsRam] at ha hb
  simp only [unecho]
  split <;> split <;> grind

theorem unecho_succ_ne (a : UInt16) : unecho (a + 1) ≠ unecho a := by
  simp only [unecho]
  split <;> split <;> grind

/-- A store to plain memory sets one byte of the image. -/
theorem write_of_isRam (bus : SystemBus) (v : UInt8) (ha : IsRam a) :
    bus.write a v = bus.poke (unecho a) v := by
  have hopen : (decide (a < 0x8000) || isUnused a) = false := by
    rw [ha.isUnused_eq, decide_eq_false (UInt16.not_lt.2 ha.le), Bool.false_or]
  rw [write, hopen, if_neg Bool.false_ne_true, if_neg (ha.ne_address _), if_neg (ha.ne_address _),
    if_neg (ha.ne_address _), if_neg (ha.ne_address _), if_neg (ha.ne_address _),
    replace_of_le bus v (UInt16.le_trans (by decide) ha.le)]

theorem read_of_isRam (bus : SystemBus) (ha : IsRam a) : bus.read a = bus.peek (unecho a) := by
  rw [read, ha.isUnused_eq, if_neg Bool.false_ne_true, if_neg (ha.ne_address _),
    behind_of_le bus (UInt16.le_trans (by decide) ha.le)]

/-- What the processor reads at an address does not depend on the bytes to which it does not
lead. -/
theorem read_poke_of_ne (bus : SystemBus) (v : UInt8) (h : unecho b ≠ a) :
    (bus.poke a v).read b = bus.read b := by
  have hpeek : (bus.poke a v).peek (unecho b) = bus.peek (unecho b) := peek_poke_of_ne bus v h
  rw [read, read]
  split
  · rfl
  split
  · rename_i hb
    have hecho : unecho b = b := by rw [hb]; rfl
    rw [← hecho, hpeek]
  · simp only [behind, hpeek]
    rfl

/-- **What is stored to plain memory is read at the address and at its echo, and nowhere else.** -/
theorem read_write_of_isRam (bus : SystemBus) (b : UInt16) (v : UInt8) (ha : IsRam a) :
    (bus.write a v).read b = if unecho b = unecho a then v else bus.read b := by
  rw [write_of_isRam bus v ha]
  by_cases h : unecho b = unecho a
  · have hb : IsRam b := Decidable.by_contra fun hb ↦ unecho_ne_of_not_isRam ha hb h
    rw [if_pos h, read_of_isRam _ hb, h]
    exact Memory.read_write_self _ _ _
  · rw [if_neg h, read_poke_of_ne bus v h]

/-- The request byte is behind no other address. -/
theorem unecho_ne_interruptFlag (hb : b ≠ interruptFlagAddress) :
    unecho b ≠ interruptFlagAddress := by
  simp only [interruptFlagAddress] at hb ⊢
  simp only [unecho]
  split <;> grind

/-- Requests that are taken back in the byte as it is read are gone when it is read again. -/
theorem read_takeBack (bus : SystemBus) (source : Interrupt) :
    (bus.write interruptFlagAddress
        (bus.read interruptFlagAddress &&& ~~~source.mask)).read interruptFlagAddress =
      bus.read interruptFlagAddress &&& ~~~source.mask := by
  have hread (bus : SystemBus) :
      bus.read interruptFlagAddress = bus.get .interruptFlag ||| 0xE0 := rfl
  have hbyte : ∀ requests : UInt8,
      ((requests ||| 0xE0) &&& ~~~source.mask) &&& 0x1F ||| 0xE0 =
        (requests ||| 0xE0) &&& ~~~source.mask := by
    cases source <;> decide +kernel
  have hwrite (v : UInt8) :
      (bus.write interruptFlagAddress v).get .interruptFlag = v &&& 0x1F :=
    (bus.get_interruptFlag_write _ v).trans (if_pos rfl)
  rw [hread, hread, hwrite, hbyte]

end SystemBus

instance : RamBus SystemBus where
  home := SystemBus.unecho
  home_ne := SystemBus.unecho_ne_of_not_isRam
  home_succ_ne := SystemBus.unecho_succ_ne
  read_write bus _ b v ha := bus.read_write_of_isRam b v ha
  read_requests_of_ne bus _ _ hb := bus.read_poke_of_ne _ (SystemBus.unecho_ne_interruptFlag hb)
  read_takeBack := SystemBus.read_takeBack

end Handheld
