import Handheld.Proofs.Bus.SpriteTransfer
import Mathlib.Data.Set.Insert

/-!
# How far a store reaches

A store is to one address, but the memory map lets some stores be seen at others: work RAM is there
twice, a sprite transfer fills the sprite table, and a store to the register of the boot ROM may lay
the first page open.  `SystemBus.footprint` says for each address how far a store to it reaches, and
`SystemBus.store_law` that it reaches no further, and what is read back at the address.

There are three kinds of addresses.  What is stored to the cartridge, or to the page where nothing
answers, is dropped.  What is stored to plain memory is read at the address and at its echo
(`SystemBus.read_write_of_isRam`).  The rest is the page of the I/O registers, which has no echo: a
store there sets a byte that is read nowhere else, and does what else the register is for.
-/

set_option autoImplicit false

namespace Handheld
namespace SystemBus

variable {a b : UInt16}

/-! ## The footprint -/

/-- The addresses at which something else may be read after a store of `v` to `a`. -/
def footprint (bus : SystemBus) (a : UInt16) (v : UInt8) : Set UInt16 :=
  if a < 0x8000 ∨ 0xFEA0 ≤ a ∧ a ≤ 0xFEFF then ∅
  else if 0xC000 ≤ a ∧ a ≤ 0xDDFF then {a, a + 0x2000}
  else if 0xE000 ≤ a ∧ a ≤ 0xFDFF then {a, a - 0x2000}
  else if a = IoRegister.spriteTransfer.address then {b | b = a ∨ 0xFE00 ≤ b ∧ b ≤ 0xFE9F}
  else if a = IoRegister.bootOff.address then
    {b | b = a ∨ bus.bootRomMapped = true ∧ v ≠ 0 ∧ b < 0x100}
  else {a}

/-- What is stored to plain memory is seen at the addresses that lead to the same place. -/
theorem mem_footprint_of_isRam (bus : SystemBus) (v : UInt8) (ha : IsRam a) :
    b ∈ bus.footprint a v ↔ unecho b = unecho a := by
  have hne := ha.ne_address
  simp only [IsRam] at ha
  rw [footprint, if_neg (by grind), unecho, unecho]
  by_cases hram : 0xC000 ≤ a ∧ a ≤ 0xDDFF
  · rw [if_pos hram, Set.mem_insert_iff, Set.mem_singleton_iff]
    grind
  by_cases hecho : 0xE000 ≤ a ∧ a ≤ 0xFDFF
  · rw [if_neg hram, if_pos hecho, Set.mem_insert_iff, Set.mem_singleton_iff]
    grind
  · rw [if_neg hram, if_neg hecho, if_neg (hne _), if_neg (hne _), Set.mem_singleton_iff]
    grind

/-! ## The page of the registers -/

/-- A byte of that page is behind no other address. -/
theorem read_poke_of_le (bus : SystemBus) (v : UInt8) (ha : 0xFEA0 ≤ a) (h : b ≠ a) :
    (bus.poke a v).read b = bus.read b :=
  bus.read_poke_of_ne v (unecho_ne ha h.symm).symm

/-- A transfer is seen in the sprite table and nowhere else. -/
theorem read_copySprites (bus : SystemBus) (page : UInt8) {n : Nat} (hn : n ≤ spriteTableSize)
    (hb : b < 0xFE00 ∨ 0xFEA0 ≤ b) : (bus.copySprites page n).read b = bus.read b := by
  have hecho : unecho b < 0xFE00 ∨ 0xFEA0 ≤ unecho b := by
    rw [unecho]
    split <;> grind
  exact read_copySprites_of_ne bus page fun _ hk ↦
    spriteTable_ne hecho (Nat.lt_of_lt_of_le hk hn)

/-- Without the boot ROM other bytes are read in the first page at most. -/
theorem read_bootOff (bus : SystemBus) (h : bus.bootRomMapped = true → ¬b < 0x100) :
    read { bus with bootRom := none } b = bus.read b := by
  have hbehind : behind { bus with bootRom := none } b = bus.behind b := by
    cases hboot : bus.bootRom with
    | none => simp only [behind, hboot, peek]
    | some boot =>
      have hb : ¬b < 0x100 := h (by rw [bootRomMapped, hboot, Option.isSome_some])
      simp only [behind, hboot, if_neg hb, peek]
  simp only [read, hbehind, peek]

/-- A store to a register is not seen outside its footprint. -/
theorem read_write_of_le (bus : SystemBus) (v : UInt8) (ha : 0xFF00 ≤ a)
    (h : b ∉ bus.footprint a v) : (bus.write a v).read b = bus.read b := by
  have hle : 0xFEA0 ≤ a := by grind
  have hself : b ≠ a := by
    rintro rfl
    refine h ?_
    rw [footprint, if_neg (by grind), if_neg (by grind), if_neg (by grind)]
    split
    · exact Or.inl rfl
    split
    · exact Or.inl rfl
    · rfl
  have hpoke (bus : SystemBus) (v : UInt8) : (bus.poke a v).read b = bus.read b :=
    bus.read_poke_of_le v hle hself
  rw [footprint, if_neg (by grind), if_neg (by grind), if_neg (by grind)] at h
  rw [write]
  split
  · rfl
  split
  · rename_i heq
    subst heq
    exact (hpoke _ _).trans (hpoke bus v)
  split
  · exact hpoke bus 0
  split
  · exact hpoke bus _
  split
  · rename_i heq
    rw [if_pos heq] at h
    have htable : b < 0xFE00 ∨ 0xFEA0 ≤ b := by grind
    rw [read_copySprites _ _ (Nat.le_refl _) htable, hpoke]
  split
  · rename_i htransfer hboot
    rw [if_neg htransfer, if_pos hboot] at h
    dsimp only
    split
    · exact hpoke bus v
    · rename_i hv
      refine (read_bootOff (bus.poke a v) fun hmapped hb ↦ ?_).trans (hpoke bus v)
      exact h (Or.inr ⟨hmapped, hv, hb⟩)
  · have hecho : unecho a = a := if_neg (by grind)
    rw [replace_of_le bus v (by grind), hecho, hpoke]

/-! ## What is read back -/

/-- What the joypad register shows after a store of `v`: two groups to select from as they are in
`v`, and four lines, each of them low if its key is held down in a group that is selected by a
zero. -/
structure ShowsKeys (bus : SystemBus) (v byte : UInt8) : Prop where
  line : ∀ k < 4, byte.toNat.testBit k =
    !(!v.toNat.testBit 4 && bus.directions.getLsbD k || !v.toNat.testBit 5 && bus.buttons.getLsbD k)
  selection : ∀ k, 4 ≤ k → k < 6 → byte.toNat.testBit k = v.toNat.testBit k
  unused : ∀ k, 6 ≤ k → k < 8 → byte.toNat.testBit k = true

/-- The lines of a group, which are high unless the group is selected. -/
theorem testBit_groupLines (selected : Bool) (held : KeyMask) :
    ∀ k < 8, (if selected then held.lines else 0x0F).toNat.testBit k =
      (decide (k < 4) && !(selected && held.getLsbD k)) := by
  revert selected held
  decide +kernel

theorem showsKeys_refreshJoypad (bus : SystemBus) (v : UInt8) :
    bus.ShowsKeys v ((bus.poke IoRegister.joypad.address v).refreshJoypad.get .joypad) := by
  have hselected : ∀ v : UInt8,
      (v &&& 0x30 &&& 0x10 = 0 ↔ (!v.toNat.testBit 4) = true) ∧
        (v &&& 0x30 &&& 0x20 = 0 ↔ (!v.toNat.testBit 5) = true) := by
    decide +kernel
  have hget : (bus.poke IoRegister.joypad.address v).get .joypad = v := get_set_self bus _ _
  have hupper : ∀ k < 8, (0xC0 : UInt8).toNat.testBit k = decide (6 ≤ k) := by decide
  have hmiddle : ∀ k < 8, (0x30 : UInt8).toNat.testBit k = decide (4 ≤ k ∧ k < 6) := by decide
  have hbit (k : Nat) (hk : k < 8) :
      ((bus.poke IoRegister.joypad.address v).refreshJoypad.get .joypad).toNat.testBit k =
        (decide (6 ≤ k) || (v.toNat.testBit k && decide (4 ≤ k ∧ k < 6)) ||
          ((decide (k < 4) && !(!v.toNat.testBit 4 && bus.directions.getLsbD k)) &&
            (decide (k < 4) && !(!v.toNat.testBit 5 && bus.buttons.getLsbD k)))) := by
    rw [refreshJoypad, get_set_self, hget]
    simp only [(hselected v).1, (hselected v).2, UInt8.toNat_or, UInt8.toNat_and, Nat.testBit_or,
      Nat.testBit_and, hupper k hk, hmiddle k hk]
    rw [← testBit_groupLines _ _ k hk, ← testBit_groupLines _ _ k hk]
    rfl
  refine ⟨fun k hk ↦ ?_, fun k hk hk' ↦ ?_, fun k hk hk' ↦ ?_⟩
  · rw [hbit k (by omega), decide_eq_false (by omega), decide_eq_false (by omega),
      decide_eq_true hk]
    simp only [Bool.and_false, Bool.false_or, Bool.true_and, Bool.not_or]
  · rw [hbit k (by omega), decide_eq_false (by omega), decide_eq_true ⟨hk, hk'⟩,
      decide_eq_false (by omega)]
    simp only [Bool.and_true, Bool.false_or, Bool.false_and, Bool.or_false]
  · rw [hbit k hk', decide_eq_true hk, Bool.true_or, Bool.true_or]

/-- The image after a store to a register, at its own address. -/
theorem peek_write_self (bus : SystemBus) (v : UInt8) (ha : 0xFF00 ≤ a)
    (h : a ≠ IoRegister.joypad.address) :
    (bus.write a v).peek a =
      if a = IoRegister.divider.address then 0
      else if a = IoRegister.interruptFlag.address then v &&& 0x1F
      else v := by
  have hpoke (bus : SystemBus) (v : UInt8) : (bus.poke a v).peek a = v :=
    Memory.read_write_self bus.memory a v
  have hopen : (decide (a < 0x8000) || isUnused a) = false := by
    rw [isUnused_eq_false (Or.inr (by grind)), decide_eq_false (by grind), Bool.false_or]
  rw [write, hopen, if_neg Bool.false_ne_true, if_neg h]
  split
  · exact hpoke bus 0
  split
  · exact hpoke bus _
  split
  · rw [peek_copySprites _ _ (Nat.le_refl _) (Or.inr (by grind)), hpoke]
  split
  · dsimp only
    split <;> exact hpoke bus v
  · have hecho : unecho a = a := if_neg (by grind)
    rw [replace_of_le bus v (by grind), hecho, hpoke]

/-- What the processor reads of a register that it has stored to. -/
theorem read_write_self (bus : SystemBus) (v : UInt8) (ha : 0xFF00 ≤ a)
    (h : a ≠ IoRegister.joypad.address) :
    (bus.write a v).read a =
      if a = IoRegister.divider.address then 0
      else if a = IoRegister.interruptFlag.address then (v &&& 0x1F) ||| 0xE0
      else v := by
  have hpeek := bus.peek_write_self v ha h
  by_cases hflag : a = IoRegister.interruptFlag.address
  · subst hflag
    rw [if_neg (by decide), if_pos rfl] at hpeek ⊢
    rw [← hpeek]
    rfl
  · rw [if_neg hflag] at hpeek ⊢
    rw [read_of_le _ ha hflag, hpeek]

/-! ## The law -/

/-- A store that the memory map drops, one to plain memory, or one to the page of the registers. -/
theorem kinds_of_address (a : UInt16) :
    (a < 0x8000 ∨ 0xFEA0 ≤ a ∧ a ≤ 0xFEFF) ∨ IsRam a ∨ 0xFF00 ≤ a := by
  simp only [IsRam]
  grind

/-- **How far a store reaches, and what it leaves.**  What is read outside the footprint of a store
stays the same.  Below the registers the byte that was stored is read all over the footprint, which
is the address and its echo.  Where the store reaches anything at all, the byte is read back at the
address itself, but for three registers: the joypad register shows the keys, the divider is zero,
and of the request byte five bits are kept and the rest are set. -/
theorem store_law (bus : SystemBus) (a : UInt16) (v : UInt8) :
    (∀ b ∉ bus.footprint a v, (bus.write a v).read b = bus.read b) ∧
      (a < 0xFF00 → ∀ b ∈ bus.footprint a v, (bus.write a v).read b = v) ∧
      ((bus.footprint a v).Nonempty →
        (a = IoRegister.joypad.address → bus.ShowsKeys v ((bus.write a v).read a)) ∧
          (a ≠ IoRegister.joypad.address → (bus.write a v).read a =
            if a = IoRegister.divider.address then 0
            else if a = IoRegister.interruptFlag.address then (v &&& 0x1F) ||| 0xE0
            else v)) := by
  rcases kinds_of_address a with hclosed | hram | hle
  · have hempty : bus.footprint a v = ∅ := if_pos hclosed
    have hdropped : bus.write a v = bus := by
      rw [write, if_pos (by simpa [isUnused] using hclosed)]
    rw [hempty, hdropped]
    exact ⟨fun b _ ↦ rfl, fun _ b hb ↦ hb.elim, fun hb ↦ absurd hb Set.not_nonempty_empty⟩
  · have hread {b : UInt16} := bus.read_write_of_isRam b v hram
    refine ⟨fun b hb ↦ ?_, fun _ b hb ↦ ?_, fun _ ↦ ⟨fun ha ↦ absurd ha (hram.ne_address _), ?_⟩⟩
    · rw [hread, if_neg (mt (bus.mem_footprint_of_isRam v hram).2 hb)]
    · rw [hread, if_pos ((bus.mem_footprint_of_isRam v hram).1 hb)]
    · intro _
      rw [if_neg (hram.ne_address _), if_neg (hram.ne_address _), hread, if_pos rfl]
  · refine ⟨fun b hb ↦ bus.read_write_of_le v hle hb, fun hlt ↦ absurd hle (UInt16.not_le.2 hlt),
      fun _ ↦ ⟨?_, bus.read_write_self v hle⟩⟩
    rintro rfl
    rw [read_of_le _ hle (by decide)]
    exact bus.showsKeys_refreshJoypad v

/-- The echo ends where the sprite table begins: the last byte of work RAM that has an echo is seen
there, and the next one is not seen in the table.  With a direction key held down and the directions
selected, the line of the key is low. -/
theorem store_law_edges :
    (blank.write 0xDDFF 7).read 0xFDFF = 7 ∧
      (blank.write 0xDE00 7).read 0xFE00 = blank.read 0xFE00 ∧
      ((write { blank with directions := 1 } 0xFF00 0x20).read 0xFF00).toNat.testBit 0 = false := by
  obtain ⟨-, hecho, -⟩ := store_law blank 0xDDFF 7
  obtain ⟨hoff, -, -⟩ := store_law blank 0xDE00 7
  obtain ⟨-, -, hself⟩ := store_law { blank with directions := 1 } 0xFF00 0x20
  have hmem : (0xFDFF : UInt16) ∈ blank.footprint 0xDDFF 7 := by
    rw [footprint, if_neg (by decide), if_pos (by decide)]
    exact Or.inr rfl
  have hnot : (0xFE00 : UInt16) ∉ blank.footprint 0xDE00 7 := by
    rw [footprint, if_neg (by decide), if_neg (by decide), if_neg (by decide), if_neg (by decide),
      if_neg (by decide), Set.mem_singleton_iff]
    decide
  have hreach : (footprint { blank with directions := 1 } 0xFF00 0x20).Nonempty := by
    rw [footprint, if_neg (by decide), if_neg (by decide), if_neg (by decide), if_neg (by decide),
      if_neg (by decide)]
    exact Set.singleton_nonempty _
  refine ⟨hecho (by decide) _ hmem, hoff _ hnot, ?_⟩
  rw [((hself hreach).1 rfl).line 0 (by decide)]
  decide

end SystemBus
end Handheld
