import Handheld.Cartridge
import Mathlib.Algebra.BigOperators.Intervals
import Mathlib.Data.Nat.ModEq

/-!
# What the checksum of the header detects

The checksum is computed by taking bytes away, one after the other, with another one each time.  So
it is what is missing from the sum of the bytes and of their number to a multiple of 256
(`CartridgeHeader.checksum_modEq`), and the stored checksum is right exactly if it fills that gap.
In that sum every byte counts once, the stored checksum among them, and bytes that differ do so by
less than 256: a single change never goes unnoticed.

`CartridgeHeader.checksum_detects` says so of any two images that are accepted as cartridges.
-/

set_option autoImplicit false

namespace Handheld
namespace CartridgeHeader

/-- A byte of a cartridge, or zero behind its end. -/
def byteAt (rom : ByteArray) (a : Nat) : UInt8 := rom[a]?.getD 0

/-- Where the bytes are that the checksum is about.  It is the last of them itself. -/
def checked : Finset Nat := Finset.Icc 0x134 0x14D

/-! ## Which images are accepted -/

/-- An accepted image holds a whole header, is not larger than a cartridge, and says that it is a
plain ROM.  What is read off it are the checksum that it holds and the one that it should hold. -/
theorem of_parse {rom : ByteArray} {header : CartridgeHeader} (h : parse rom = .ok header) :
    (headerEnd ≤ rom.size ∧ rom.size ≤ Handheld.romSize ∧ byteAt rom 0x147 = 0) ∧
      header.headerChecksum = byteAt rom 0x14D ∧
      header.computedChecksum = checksum (bytesIn rom 0x134 0x14C) := by
  rw [parse] at h
  dsimp only at h
  split at h
  next => cases h
  next hsmall =>
    split at h
    next => cases h
    next hlarge =>
      split at h
      next => cases h
      next htype =>
        obtain rfl := Except.ok.inj h
        have hplain : byteAt rom 0x147 = 0 := Decidable.of_not_not htype
        exact ⟨⟨Nat.le_of_not_lt hsmall, Nat.le_of_not_lt hlarge, hplain⟩, rfl, rfl⟩

theorem exists_parse_eq_ok_iff (rom : ByteArray) : (∃ header, parse rom = .ok header) ↔
    headerEnd ≤ rom.size ∧ rom.size ≤ Handheld.romSize ∧ byteAt rom 0x147 = 0 := by
  refine ⟨fun ⟨_, h⟩ ↦ (of_parse h).1, ?_⟩
  rintro ⟨hsmall, hlarge, hplain⟩
  rw [byteAt] at hplain
  rw [parse]
  dsimp only
  rw [if_neg (Nat.not_lt.2 hsmall), if_neg (Nat.not_lt.2 hlarge), if_neg (not_ne_iff.2 hplain)]
  exact ⟨_, rfl⟩

/-! ## The sum -/

/-- What bytes are taken away from comes back when they are put in again, and one more for each. -/
theorem foldl_checksum_modEq (start : UInt8) (bytes : List UInt8) :
    (bytes.foldl (fun sum b ↦ sum - b - 1) start).toNat + (bytes.map UInt8.toNat).sum +
      bytes.length ≡ start.toNat [MOD 256] := by
  induction bytes generalizing start with
  | nil => rfl
  | cons b bytes ih =>
    have hstep : (start - b - 1).toNat + b.toNat + 1 ≡ start.toNat [MOD 256] := by
      have hb := b.toNat_lt
      have hstart := start.toNat_lt
      simp only [Nat.ModEq, UInt8.toNat_sub, UInt8.reduceToNat]
      omega
    calc (bytes.foldl (fun sum b ↦ sum - b - 1) (start - b - 1)).toNat +
          (b.toNat + (bytes.map UInt8.toNat).sum) + (bytes.length + 1)
        = (bytes.foldl (fun sum b ↦ sum - b - 1) (start - b - 1)).toNat +
            (bytes.map UInt8.toNat).sum + bytes.length + (b.toNat + 1) := by omega
      _ ≡ (start - b - 1).toNat + (b.toNat + 1) [MOD 256] := (ih (start - b - 1)).add_right _
      _ ≡ start.toNat [MOD 256] := hstep

theorem checksum_modEq (bytes : List UInt8) :
    (checksum bytes).toNat + (bytes.map UInt8.toNat).sum + bytes.length ≡ 0 [MOD 256] :=
  foldl_checksum_modEq 0 bytes

theorem sum_bytesIn (rom : ByteArray) (first last : Nat) :
    ((bytesIn rom first last).map UInt8.toNat).sum =
      ∑ a ∈ Finset.Icc first last, (byteAt rom a).toNat := by
  rw [← Finset.Ico_add_one_right_eq_Icc, Finset.sum_Ico_eq_sum_range, bytesIn, List.map_map,
    ← List.toFinset_range, List.sum_toFinset _ List.nodup_range]
  rfl

/-- The sum that decides. -/
def checkedSum (rom : ByteArray) : Nat := ∑ a ∈ checked, (byteAt rom a).toNat

/-- **The checksum is right if it fills up the sum of the bytes before it.** -/
theorem checksumValid_iff {rom : ByteArray} {header : CartridgeHeader}
    (h : parse rom = .ok header) :
    header.checksumValid = true ↔ (checkedSum rom + 25) % 256 = 0 := by
  obtain ⟨-, hstored, hcomputed⟩ := of_parse h
  have hgap := checksum_modEq (bytesIn rom 0x134 0x14C)
  rw [sum_bytesIn, ← hcomputed] at hgap
  have hsum : checkedSum rom =
      ∑ a ∈ Finset.Icc 0x134 0x14C, (byteAt rom a).toNat + header.headerChecksum.toNat := by
    rw [hstored]
    exact Finset.sum_Icc_succ_top (by decide) _
  have hlength : (bytesIn rom 0x134 0x14C).length = 25 := by simp [bytesIn]
  rw [hlength, Nat.ModEq] at hgap
  have hlt := header.headerChecksum.toNat_lt
  have hlt' := header.computedChecksum.toNat_lt
  rw [checksumValid, beq_iff_eq, ← UInt8.toNat_inj, hsum]
  omega

/-- **No change of a single byte goes unnoticed.**  The checksum of an accepted image is right
exactly if the sum of the bytes from `0x134` to `0x14D` and 25 is a multiple of 256.  So of two
images that differ in one of these bytes, one at most has a right checksum; and what differs
elsewhere makes no difference to it. -/
theorem checksum_detects {rom rom' : ByteArray} {header header' : CartridgeHeader}
    (h : parse rom = .ok header) (h' : parse rom' = .ok header') :
    (header.checksumValid = true ↔ (checkedSum rom + 25) % 256 = 0) ∧
      ((∃! a, a ∈ checked ∧ byteAt rom a ≠ byteAt rom' a) →
        ¬(header.checksumValid = true ∧ header'.checksumValid = true)) ∧
      ((∀ a ∈ checked, byteAt rom a = byteAt rom' a) →
        header.checksumValid = header'.checksumValid) := by
  refine ⟨checksumValid_iff h, ?_, ?_⟩
  · rintro ⟨a, ⟨ha, hchanged⟩, hunique⟩
    have hrest : ∑ b ∈ checked.erase a, (byteAt rom b).toNat =
        ∑ b ∈ checked.erase a, (byteAt rom' b).toNat := by
      refine Finset.sum_congr rfl fun b hb ↦ ?_
      obtain ⟨hne, hb⟩ := Finset.mem_erase.1 hb
      by_contra hdiffers
      exact hne (hunique b ⟨hb, fun heq ↦ hdiffers (congrArg UInt8.toNat heq)⟩)
    rw [checksumValid_iff h, checksumValid_iff h', checkedSum, checkedSum,
      ← Finset.add_sum_erase _ _ ha, ← Finset.add_sum_erase _ _ ha, hrest]
    rintro ⟨hvalid, hvalid'⟩
    have hlt := (byteAt rom a).toNat_lt
    have hlt' := (byteAt rom' a).toNat_lt
    exact hchanged (UInt8.toNat_inj.1 (by omega))
  · intro hsame
    have hsum : checkedSum rom = checkedSum rom' :=
      Finset.sum_congr rfl fun a ha ↦ congrArg UInt8.toNat (hsame a ha)
    rw [Bool.eq_iff_iff, checksumValid_iff h, checksumValid_iff h', hsum]

/-- An image of some size with given bytes. -/
def image (size : Nat) (f : Nat → UInt8) : ByteArray := ⟨Array.ofFn fun a : Fin size ↦ f a⟩

theorem size_image (size : Nat) (f : Nat → UInt8) : (image size f).size = size :=
  Array.size_ofFn

theorem byteAt_image {size a : Nat} (f : Nat → UInt8) (ha : a < size) :
    byteAt (image size f) a = f a := by
  have hsize : a < (image size f).size := ha.trans_eq (size_image size f).symm
  rw [byteAt, getElem?_pos _ a hsize]
  exact Array.getElem_ofFn _

theorem checkedSum_image {size : Nat} (f : Nat → UInt8) (hsize : headerEnd ≤ size) :
    checkedSum (image size f) = ∑ a ∈ checked, (f a).toNat := by
  refine Finset.sum_congr rfl fun a ha ↦ ?_
  have hlast := (Finset.mem_Icc.1 ha).2
  rw [byteAt_image f (hlast.trans_lt (Nat.lt_of_lt_of_le (by decide) hsize))]

/-- An image without a title and with a right checksum, and a longer one, filled differently, that
has a title of one letter. -/
theorem checksum_detects_title :
    let bytes (a : Nat) : UInt8 := if a = 0x14D then 0xE7 else 0
    let bytes' (a : Nat) : UInt8 := if a = 0x134 then 0x41 else if a < 0x134 then 0xFF else bytes a
    let rom := image 0x150 bytes
    let rom' := image 0x8000 bytes'
    ∃ header header', parse rom = .ok header ∧ parse rom' = .ok header' ∧
      (∃! a, a ∈ checked ∧ byteAt rom a ≠ byteAt rom' a) ∧
      header.checksumValid = true ∧ header'.checksumValid = false := by
  intro bytes bytes' rom rom'
  have hrom {a : Nat} (ha : a ∈ checked) : byteAt rom a = bytes a ∧ byteAt rom' a = bytes' a := by
    have hlast := (Finset.mem_Icc.1 ha).2
    exact ⟨byteAt_image bytes (by omega), byteAt_image bytes' (by omega)⟩
  have htype : (0x147 : Nat) ∈ checked := by decide
  obtain ⟨header, h⟩ := (exists_parse_eq_ok_iff rom).2
    ⟨(size_image _ _).ge, (size_image _ _).trans_le (by decide), (hrom htype).1⟩
  obtain ⟨header', h'⟩ := (exists_parse_eq_ok_iff rom').2
    ⟨(by decide : headerEnd ≤ 0x8000).trans_eq (size_image _ _).symm, (size_image _ _).le,
      (hrom htype).2⟩
  have hchanged : ∃! a, a ∈ checked ∧ byteAt rom a ≠ byteAt rom' a := by
    have hsame : ∀ a ∈ checked, a ≠ 0x134 → bytes a = bytes' a := by decide
    refine ⟨0x134, ⟨by decide, ?_⟩, ?_⟩
    · rw [(hrom (by decide)).1, (hrom (by decide)).2]
      decide
    · rintro a ⟨ha, hdiffers⟩
      rw [(hrom ha).1, (hrom ha).2] at hdiffers
      exact Decidable.of_not_not fun hne ↦ hdiffers (hsame a ha hne)
  obtain ⟨hvalid, hdetects, -⟩ := checksum_detects h h'
  have htrue : header.checksumValid = true := by
    rw [hvalid, checkedSum_image bytes (by decide)]
    decide
  refine ⟨header, header', h, h', hchanged, htrue, ?_⟩
  exact Bool.eq_false_iff.2 fun hvalid' ↦ hdetects hchanged ⟨htrue, hvalid'⟩

end CartridgeHeader
end Handheld
