import Handheld.Proofs.Bus.Ram

/-!
# What a sprite transfer copies

A store to the transfer register fills the sprite table from the page that it names.  The bytes come
through the memory map, as the processor would read them, and they come one after another, while the
table is already being filled.  So a transfer could in principle read what it has just written.  It
never does: the place that is read for the `n`-th byte is outside the table, or it is the `n`-th
place of the table itself (`SystemBus.unecho_source_ne`), and only the places before that one have
been written.

Hence every byte is what the processor would have read before the first of them was copied
(`SystemBus.transfer_copies`), the boot ROM, the echo of work RAM, the page of the registers and the
table itself among the sources.
-/

set_option autoImplicit false

namespace Handheld
namespace SystemBus

/-- Where a place of the sprite table stands. -/
def spritePlace (n : Nat) : UInt16 := spriteTable + UInt16.ofNat n

/-- Where the byte for a place of the sprite table comes from. -/
def transferSource (page : UInt8) (n : Nat) : UInt16 := UInt16.ofNat (256 * page.toNat + n)

variable {n k : Nat}

theorem toNat_spritePlace (hn : n < spriteTableSize) :
    (spritePlace n).toNat = 0xFE00 + n := by
  have hlt : n < 160 := hn
  rw [spritePlace, UInt16.toNat_add, UInt16.toNat_ofNat', spriteTable]
  simp only [UInt16.reduceToNat]
  omega

theorem toNat_transferSource (page : UInt8) (hn : n < spriteTableSize) :
    (transferSource page n).toNat = 256 * page.toNat + n := by
  have hlt : n < 160 := hn
  have hpage := page.toNat_lt
  rw [transferSource, UInt16.toNat_ofNat']
  omega

/-- The page that is copied starts at a multiple of 256 and ends before the next one. -/
theorem ofBytes_add_ofNat (page : UInt8) (n : Nat) :
    Word.ofBytes page 0 + UInt16.ofNat n = transferSource page n := by
  apply UInt16.toNat_inj.1
  rw [transferSource, UInt16.toNat_add, Word.toNat_ofBytes, UInt16.toNat_ofNat',
    UInt16.toNat_ofNat', UInt8.toNat_zero]
  omega

theorem spritePlace_ne (hn : n < spriteTableSize) (hk : k < n) : spritePlace n ≠ spritePlace k := by
  intro h
  have hnat := congrArg UInt16.toNat h
  rw [toNat_spritePlace hn, toNat_spritePlace (Nat.lt_trans hk hn)] at hnat
  omega

/-- **A transfer reads no place that it has filled.** -/
theorem unecho_source_ne (page : UInt8) (hn : n < spriteTableSize) (hk : k < n) :
    unecho (transferSource page n) ≠ spritePlace k := by
  have hlt : n < 160 := hn
  have hsource := toNat_transferSource page hn
  have hplace := toNat_spritePlace (Nat.lt_trans hk hn)
  intro h
  have hnat := congrArg UInt16.toNat h
  rw [hplace, unecho] at hnat
  split at hnat
  · rename_i hecho
    rw [UInt16.le_iff_toNat_le, UInt16.le_iff_toNat_le] at hecho
    rw [UInt16.toNat_sub_of_le _ _ (UInt16.le_iff_toNat_le.2 (by
      simp only [UInt16.reduceToNat] at hecho ⊢; omega))] at hnat
    simp only [UInt16.reduceToNat] at hecho hnat
    omega
  · omega

/-! ## Copying -/

theorem copySprites_succ (bus : SystemBus) (page : UInt8) (n : Nat) :
    bus.copySprites page (n + 1) =
      (bus.copySprites page n).poke (spritePlace n)
        ((bus.copySprites page n).read (transferSource page n)) := by
  rw [copySprites, ofBytes_add_ofNat]
  rfl

/-- What a transfer has not reached is as it was. -/
theorem read_copySprites_of_ne (bus : SystemBus) (page : UInt8) {a : UInt16}
    (h : ∀ k < n, unecho a ≠ spritePlace k) : (bus.copySprites page n).read a = bus.read a := by
  induction n with
  | zero => rfl
  | succ n ih =>
    rw [copySprites_succ, read_poke_of_ne _ _ (h n (Nat.lt_succ_self n)),
      ih fun k hk ↦ h k (Nat.lt_succ_of_lt hk)]

/-- **Each place gets the byte that was to be read at its source before anything was copied.** -/
theorem peek_copySprites_place (bus : SystemBus) (page : UInt8) (hn : n ≤ spriteTableSize)
    (hk : k < n) :
    (bus.copySprites page n).peek (spritePlace k) = bus.read (transferSource page k) := by
  induction n with
  | zero => exact absurd hk (Nat.not_lt_zero k)
  | succ n ih =>
    rw [copySprites_succ]
    rcases Nat.lt_succ_iff_lt_or_eq.1 hk with hlt | rfl
    · rw [peek_poke_of_ne _ _ (spritePlace_ne hn hlt).symm, ih (Nat.le_of_succ_le hn) hlt]
    · rw [peek_poke, if_pos rfl,
        read_copySprites_of_ne bus page fun j hj ↦ unecho_source_ne page hn hj]

theorem write_spriteTransfer (bus : SystemBus) (page : UInt8) :
    bus.write IoRegister.spriteTransfer.address page =
      (bus.set .spriteTransfer page).copySprites page spriteTableSize := by
  rw [write, if_neg (by decide), if_neg (by decide), if_neg (by decide), if_neg (by decide),
    if_pos rfl]
  rfl

/-! ## The transfer -/

/-- **A transfer copies what the processor would have read.**  After a store to the transfer
register each place of the sprite table holds the byte that the processor would have read at its
source with the register set and nothing copied yet.  The register holds the page, the rest of the
image is as it was, and nothing but the image has changed. -/
theorem transfer_copies (bus : SystemBus) (page : UInt8) :
    (∀ n < spriteTableSize,
      (bus.write IoRegister.spriteTransfer.address page).peek (spritePlace n) =
        (bus.set .spriteTransfer page).read (transferSource page n)) ∧
      (bus.write IoRegister.spriteTransfer.address page).get .spriteTransfer = page ∧
      (∀ a, a < 0xFE00 ∨ 0xFE9F < a → a ≠ IoRegister.spriteTransfer.address →
        (bus.write IoRegister.spriteTransfer.address page).peek a = bus.peek a) ∧
      ∃ memory, bus.write IoRegister.spriteTransfer.address page = { bus with memory } := by
  rw [write_spriteTransfer]
  refine ⟨fun n hn ↦ peek_copySprites_place _ page (Nat.le_refl _) hn, ?_, fun a ha hne ↦ ?_, ?_⟩
  · rw [get, peek_copySprites _ _ (Nat.le_refl _) (Or.inr (by decide))]
    exact get_set_self bus _ _
  · have htable : a < 0xFE00 ∨ 0xFEA0 ≤ a := by grind
    rw [peek_copySprites _ _ (Nat.le_refl _) htable]
    exact peek_poke_of_ne bus _ hne
  · exact ⟨_, copySprites_eq _ page _⟩

/-- A transfer of the page of the registers copies its own register, which holds the page by then.
One of the sprite table leaves the table as it was.  One of the echo of work RAM copies work RAM, and
changes nothing there. -/
theorem transfer_copies_pages :
    (blank.write IoRegister.spriteTransfer.address 0xFF).peek (spritePlace 0x46) = 0xFF ∧
      ((blank.poke 0xFE05 7).write IoRegister.spriteTransfer.address 0xFE).peek
        (spritePlace 5) = 7 ∧
      ((blank.poke 0xC005 7).write IoRegister.spriteTransfer.address 0xE0).peek
        (spritePlace 5) = 7 ∧
      ((blank.poke 0xC005 7).write IoRegister.spriteTransfer.address 0xE0).peek 0xC005 = 7 := by
  obtain ⟨hregisters, -⟩ := transfer_copies blank 0xFF
  obtain ⟨htable, -⟩ := transfer_copies (blank.poke 0xFE05 7) 0xFE
  obtain ⟨hecho, -, hrest, -⟩ := transfer_copies (blank.poke 0xC005 7) 0xE0
  refine ⟨(hregisters _ (by decide)).trans ?_, (htable _ (by decide)).trans ?_,
    (hecho _ (by decide)).trans ?_, (hrest _ (by decide) (by decide)).trans ?_⟩
  · rw [show transferSource 0xFF 0x46 = IoRegister.spriteTransfer.address by decide,
      read_of_le _ (by decide) (by decide)]
    exact get_set_self _ _ _
  · rw [show transferSource 0xFE 5 = 0xFE05 by decide, read_of_isRam _ (by decide), set,
      peek_poke_of_ne _ _ (by decide)]
    exact Memory.read_write_self _ _ _
  · rw [show transferSource 0xE0 5 = 0xE005 by decide, read_of_isRam _ (by decide), set,
      peek_poke_of_ne _ _ (by decide)]
    exact Memory.read_write_self _ _ _
  · exact Memory.read_write_self _ _ _

end SystemBus
end Handheld
