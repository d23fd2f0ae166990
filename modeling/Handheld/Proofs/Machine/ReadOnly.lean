import Handheld.Proofs.Bus.Overlay
import Handheld.Proofs.Machine.Requests

/-!
# The cartridge stays, and the boot ROM goes once

Whatever a machine does and whatever is done to it, the bus changes by stores and by what the
devices do to their registers (`Machine.changesOnly_replay`).  Neither reaches below `0x8000`, and of
the stores only one kind touches the boot ROM: that of a byte other than zero to its register, which
switches it off.  So what the processor reads below `0x8000` at any time is known from the images
that the machine was switched on with and from the stores to that register
(`Machine.rom_stays`).
-/

set_option autoImplicit false

namespace Handheld
namespace Machine

/-! ## Acts and their stores -/

/-- What can be done with a machine: something happens to it, or a byte is stored on its bus. -/
inductive Act where
  | happening (x : Happening)
  | store (a : UInt16) (v : UInt8)

/-- The machine after an act. -/
def afterAct (m : Machine) : Act → Machine
  | .happening x => m.after x
  | .store a v => { m with bus := m.bus.write a v }

/-- The stores that the bus takes in an act. -/
def actStores (m : Machine) : Act → List (UInt16 × UInt8)
  | .happening .step => m.core.stores
  | .happening (.keys _) => []
  | .store a v => [(a, v)]

/-- The stores that the bus takes in a run of acts, in order. -/
def runStores (m : Machine) : List Act → List (UInt16 × UInt8)
  | [] => []
  | x :: run => m.actStores x ++ (m.afterAct x).runStores run

/-- **An act is its stores and what the devices do.** -/
theorem changesOnly_replay (m : Machine) (x : Act) :
    (Bus.replay m.bus (m.actStores x)).ChangesOnly SystemBus.deviceRegisters (m.afterAct x).bus := by
  cases x with
  | happening x =>
    cases x with
    | step =>
      have hstep := m.step_changesOnly
      rw [Core.step_bus] at hstep
      exact hstep
    | keys event => exact (SystemBus.applyKeys_changesOnly m.bus event).mono (by decide)
  | store a v => exact .refl _ _

/-! ## Runs -/

theorem peek_run_of_lt (m : Machine) (run : List Act) {a : UInt16} (ha : a < 0x8000) :
    (run.foldl afterAct m).bus.peek a = m.bus.peek a := by
  have hreg : a < 0xFF00 := by grind
  induction run generalizing m with
  | nil => rfl
  | cons x run ih =>
    rw [List.foldl_cons, ih, (m.changesOnly_replay x).peek_eq_of_lt hreg,
      SystemBus.peek_replay_of_lt _ _ ha]

/-- Once it is switched off, the boot ROM stays off. -/
theorem bootRom_run_of_none {m : Machine} (h : m.bus.bootRom = none) (run : List Act) :
    (run.foldl afterAct m).bus.bootRom = none := by
  induction run generalizing m with
  | nil => exact h
  | cons x run ih =>
    refine ih ?_
    rw [(m.changesOnly_replay x).bootRom_eq]
    exact SystemBus.bootRom_replay_of_switches _ (Or.inl h)

theorem bootRom_run_of_switches {m : Machine} {run : List Act}
    (h : SystemBus.SwitchesBootOff (m.runStores run)) :
    (run.foldl afterAct m).bus.bootRom = none := by
  induction run generalizing m with
  | nil =>
    obtain ⟨v, -, hmem⟩ := h
    cases hmem
  | cons x run ih =>
    obtain ⟨v, hv, hmem⟩ := h
    rcases List.mem_append.1 hmem with hnow | hlater
    · refine bootRom_run_of_none ?_ run
      rw [(m.changesOnly_replay x).bootRom_eq]
      exact SystemBus.bootRom_replay_of_switches _ (Or.inr ⟨v, hv, hnow⟩)
    · exact ih ⟨v, hv, hlater⟩

theorem bootRom_run {m : Machine} {run : List Act}
    (h : ¬SystemBus.SwitchesBootOff (m.runStores run)) :
    (run.foldl afterAct m).bus.bootRom = m.bus.bootRom := by
  induction run generalizing m with
  | nil => rfl
  | cons x run ih =>
    have hnow : ¬SystemBus.SwitchesBootOff (m.actStores x) := fun ⟨v, hv, hmem⟩ ↦
      h ⟨v, hv, List.mem_append_left _ hmem⟩
    have hlater : ¬SystemBus.SwitchesBootOff ((m.afterAct x).runStores run) := fun ⟨v, hv, hmem⟩ ↦
      h ⟨v, hv, List.mem_append_right _ hmem⟩
    rw [List.foldl_cons, ih hlater, (m.changesOnly_replay x).bootRom_eq,
      SystemBus.bootRom_replay _ hnow]

/-! ## What the processor reads -/

/-- The byte that belongs at an address below `0x8000`: that of the boot ROM where it is mapped, and
else that of the cartridge, which reads `0xFF` where it has none. -/
def romByte (boot rom : Option ByteArray) (mapped : Bool) (a : UInt16) : UInt8 :=
  let covering := if mapped && a < 0x100 then boot else rom
  (covering.bind fun bytes ↦ bytes[a.toNat]?).getD 0xFF

theorem read_image {rom : Option ByteArray} {a : UInt16} (ha : a < 0x8000) :
    (SystemBus.image (rom.getD ByteArray.empty)).read a =
      (rom.bind fun bytes ↦ bytes[a.toNat]?).getD 0xFF := by
  rw [SystemBus.image, Memory.read_ofFn, if_pos ha]
  cases rom with
  | none => rfl
  | some bytes =>
    show (if h : a.toNat < bytes.size then bytes[a.toNat] else 0xFF) = bytes[a.toNat]?.getD 0xFF
    split
    · rename_i h
      rw [getElem?_pos bytes a.toNat h, Option.getD_some]
    · rename_i h
      rw [getElem?_neg bytes a.toNat h, Option.getD_none]

/-- Within the first page an address is its low byte. -/
theorem toUInt8_toNat {a : UInt16} (ha : a < 0x100) : a.toUInt8.toNat = a.toNat := by
  rw [UInt16.toNat_toUInt8]
  exact Nat.mod_eq_of_lt (UInt16.lt_iff_toNat_lt.1 ha)

theorem getElem?_bootRom (boot : BootRom) {a : UInt16} (ha : a < 0x100) :
    boot.bytes[a.toNat]? = some (boot.read a.toUInt8) := by
  have hlt : a.toNat < boot.bytes.size := boot.size_bytes ▸ UInt16.lt_iff_toNat_lt.1 ha
  rw [getElem?_pos boot.bytes a.toNat hlt]
  exact congrArg some (getElem_congr_idx (toUInt8_toNat ha)).symm

theorem romByte_boot (boot : BootRom) (rom : Option ByteArray) {a : UInt16} (ha : a < 0x100) :
    romByte (some boot.bytes) rom true a = boot.read a.toUInt8 := by
  simp [romByte, ha, getElem?_bootRom boot ha]

/-- A bus reads what belongs there, if its image has the cartridge and its boot ROM is the one that
was given or has been switched off. -/
theorem read_eq_romByte {boot rom : Option ByteArray} {bus : SystemBus}
    (himage : ∀ a < 0x8000, bus.peek a = (SystemBus.image (rom.getD ByteArray.empty)).read a)
    (hboot : bus.bootRom = none ∨ boot = bus.bootRom.map BootRom.bytes) {a : UInt16}
    (ha : a < 0x8000) : bus.read a = romByte boot rom bus.bootRomMapped a := by
  rw [bus.read_of_lt ha, himage a ha, read_image ha, SystemBus.bootRomMapped]
  cases hb : bus.bootRom with
  | none => rfl
  | some bytes =>
    have hgiven : boot = some bytes.bytes := by simpa [hb] using hboot
    subst hgiven
    by_cases hpage : a < 0x100
    · exact (if_pos hpage).trans (romByte_boot bytes rom hpage).symm
    · simp [romByte, hpage]

/-- **The cartridge and the boot ROM are read-only, and the boot ROM is switched off once and for
good.**  After any steps, failures, key events and stores, the processor reads below `0x8000` the
byte of the boot ROM where that is mapped, and else the byte of the cartridge; and the boot ROM is
mapped exactly when there was one and no byte other than zero has been stored to its register. -/
theorem rom_stays {boot rom : Option ByteArray} {m : Machine} (hm : assemble boot rom = .ok m)
    (run : List Act) :
    (∀ a < 0x8000, (run.foldl afterAct m).bus.read a =
        romByte boot rom (run.foldl afterAct m).bus.bootRomMapped a) ∧
      ((run.foldl afterAct m).bus.bootRomMapped = true ↔
        boot.isSome = true ∧ ∀ v ≠ 0, (IoRegister.bootOff.address, v) ∉ m.runStores run) := by
  have hon := (SwitchedOn.of_assemble hm).bus
  have himage : ∀ a < 0x8000, (run.foldl afterAct m).bus.peek a =
      (SystemBus.image (rom.getD ByteArray.empty)).read a := fun a ha ↦
    (peek_run_of_lt m run ha).trans (hon.peek_eq a (by grind))
  by_cases hoff : SystemBus.SwitchesBootOff (m.runStores run)
  · have hnone := bootRom_run_of_switches hoff
    refine ⟨fun a ha ↦ read_eq_romByte himage (Or.inl hnone) ha, ?_⟩
    obtain ⟨v, hv, hmem⟩ := hoff
    rw [SystemBus.bootRomMapped, hnone]
    refine ⟨fun h ↦ absurd h Bool.false_ne_true, fun h ↦ ?_⟩
    exact absurd hmem (h.2 v hv)
  · have hsame := bootRom_run hoff
    refine ⟨fun a ha ↦ read_eq_romByte himage (Or.inr (hsame ▸ hon.boot_eq)) ha, ?_⟩
    have hsome : m.bus.bootRom.isSome = boot.isSome := by rw [hon.boot_eq, Option.isSome_map]
    rw [SystemBus.bootRomMapped, hsame, hsome]
    exact ⟨fun h ↦ ⟨h, fun v hv hmem ↦ hoff ⟨v, hv, hmem⟩⟩, And.left⟩

/-- A store into the boot ROM, and one of zero to its register, change nothing; a step and a store
of zero after it has been switched off do not bring it back. -/
theorem rom_stays_switchedOff :
    ∃ m, assemble (some (BootRom.ofFn fun _ ↦ 0xAA).bytes) none = .ok m ∧
      ([Act.store 0x0010 0x55, .store 0xFF50 0].foldl afterAct m).bus.read 0x0010 = 0xAA ∧
      ([Act.store 0xFF50 1, .happening .step, .store 0xFF50 0].foldl afterAct m).bus.read 0x0010
        = 0xFF := by
  obtain ⟨m, hm⟩ := exists_assemble_boot (BootRom.ofFn fun _ ↦ 0xAA)
  refine ⟨m, hm, ?_, ?_⟩
  · obtain ⟨hread, hmapped⟩ := rom_stays hm [.store 0x0010 0x55, .store 0xFF50 0]
    have hkept : ∀ v ≠ 0, (IoRegister.bootOff.address, v) ∉
        m.runStores [.store 0x0010 0x55, .store 0xFF50 0] := by
      simp [runStores, actStores, IoRegister.address]
    rw [hread 0x0010 (by decide), hmapped.2 ⟨Option.isSome_some, hkept⟩,
      romByte_boot _ _ (by decide), BootRom.read_ofFn]
  · obtain ⟨hread, hmapped⟩ := rom_stays hm [.store 0xFF50 1, .happening .step, .store 0xFF50 0]
    have hoff : ¬([Act.store 0xFF50 1, .happening .step, .store 0xFF50 0].foldl afterAct
        m).bus.bootRomMapped = true := fun h ↦
      (hmapped.1 h).2 1 (by decide) List.mem_cons_self
    rw [hread 0x0010 (by decide), Bool.eq_false_iff.2 hoff]
    simp [romByte]

end Machine
end Handheld
