import Handheld.Proofs.Machine.Devices

/-!
# Switching on

What is true of a machine that has just been switched on, and of its bus: the boot ROM that was
given lies over the first page, the cartridge is in its window, and the registers have their initial
values.  What is said of all that can become of a machine starts from here
(`Machine.SwitchedOn.of_assemble`).
-/

set_option autoImplicit false

namespace Handheld

/-! ## Boot programs -/

namespace BootRom

/-- The boot ROM that holds `f i` at each place `i`. -/
def ofFn (f : UInt8 → UInt8) : BootRom :=
  ⟨⟨Array.ofFn fun i : Fin UInt8.size ↦ f (UInt8.ofFin i)⟩, Array.size_ofFn⟩

private theorem get_ofFin {n : Nat} (f : Fin n → UInt8) (i : Nat)
    (h : i < (Array.ofFn f).size) :
    (ByteArray.mk (Array.ofFn f)).get i h = f ⟨i, by simpa using h⟩ :=
  Array.getElem_ofFn h

@[simp] theorem read_ofFn (f : UInt8 → UInt8) (i : UInt8) : (ofFn f).read i = f i := by
  rw [read, ofFn, get_ofFin fun j : Fin UInt8.size ↦ f (UInt8.ofFin j)]
  rfl

end BootRom

namespace SystemBus

variable {boot rom : Option ByteArray} {bus : SystemBus}

/-! ## The bus -/

/-- A bus as it is when the machine is switched on. -/
structure SwitchedOn (boot rom : Option ByteArray) (bus : SystemBus) : Prop where
  bootRom_eq : bootRomOf boot = .ok bus.bootRom
  /-- Below the registers there is the cartridge, and nothing else. -/
  peek_eq : ∀ a < 0xFF00, bus.peek a = (image (rom.getD ByteArray.empty)).read a
  get_eq : ∀ r, r ≠ .bootOff → bus.get r = r.initial
  /-- The divider has not been written. -/
  dividerReset_eq : bus.dividerReset = false

/-- Setting registers to their initial values, whatever their order. -/
theorem get_foldl_initial (registers : List IoRegister) (bus : SystemBus) (q : IoRegister) :
    (registers.foldl (fun bus r ↦ bus.set r r.initial) bus).get q =
      if q ∈ registers then q.initial else bus.get q := by
  induction registers generalizing bus with
  | nil => rfl
  | cons r registers ih =>
    rw [List.foldl_cons, ih]
    by_cases hr : q = r
    · simp [hr]
    · simp [hr, get_set_of_ne bus _ hr]

theorem changesOnly_foldl_initial (registers : List IoRegister) (bus : SystemBus) :
    bus.ChangesOnly registers (registers.foldl (fun bus r ↦ bus.set r r.initial) bus) := by
  induction registers generalizing bus with
  | nil => exact .refl _ _
  | cons r registers ih =>
    exact ((ChangesOnly.refl _ bus).set List.mem_cons_self _).trans
      ((ih _).mono (List.subset_cons_self _ _))

theorem dividerReset_foldl_initial (registers : List IoRegister) (bus : SystemBus) :
    (registers.foldl (fun bus r ↦ bus.set r r.initial) bus).dividerReset = bus.dividerReset := by
  induction registers generalizing bus with
  | nil => rfl
  | cons r registers ih => exact ih (bus.set r r.initial)

/-- The registers at their initial values, over a cartridge. -/
theorem switchedOn_initial {bootRom : Option BootRom} (hb : bootRomOf boot = .ok bootRom) :
    SwitchedOn boot rom
      (IoRegister.all.foldl (fun bus r ↦ bus.set r r.initial)
        { memory := image (rom.getD ByteArray.empty), bootRom }) := by
  have hchanges := changesOnly_foldl_initial IoRegister.all
    { memory := image (rom.getD ByteArray.empty), bootRom }
  refine ⟨?_, fun a ha ↦ hchanges.peek_eq_of_lt ha, fun r _ ↦ ?_,
    dividerReset_foldl_initial _ _⟩
  · rw [hchanges.bootRom_eq]
    exact hb
  · rw [get_foldl_initial, if_pos (by cases r <;> decide)]

theorem SwitchedOn.set_bootOff (h : SwitchedOn boot rom bus) (v : UInt8) :
    SwitchedOn boot rom (bus.set .bootOff v) := by
  have hchanges : bus.ChangesOnly [.bootOff] (bus.set .bootOff v) :=
    (ChangesOnly.refl _ _).set List.mem_cons_self v
  refine ⟨?_, fun a ha ↦ (hchanges.peek_eq_of_lt ha).trans (h.peek_eq a ha), fun r hr ↦ ?_,
    h.dividerReset_eq⟩
  · rw [hchanges.bootRom_eq]
    exact h.bootRom_eq
  · rw [get_set_of_ne _ _ hr, h.get_eq r hr]

/-- A bus that could be built has the registers at their initial values, but for the one that says
whether there is a boot ROM. -/
theorem new_eq_ok (h : new boot rom = .ok bus) :
    ∃ bootRom, bootRomOf boot = .ok bootRom ∧
      ∃ bus₀ : SystemBus, bus₀ = IoRegister.all.foldl (fun bus r ↦ bus.set r r.initial)
          { memory := image (rom.getD ByteArray.empty), bootRom } ∧
        (bus = bus₀ ∨ bus = bus₀.set .bootOff 1) := by
  rw [new] at h
  cases hb : bootRomOf boot with
  | error e =>
    rw [hb] at h
    cases h
  | ok bootRom =>
    rw [hb] at h
    replace h : (if (rom.getD ByteArray.empty).size > romSize then Except.error _ else _) =
      Except.ok bus := h
    refine ⟨bootRom, rfl, _, rfl, ?_⟩
    split at h
    · cases h
    · cases h
      split
      · exact Or.inl rfl
      · exact Or.inr rfl

theorem switchedOn_of_new (h : new boot rom = .ok bus) : SwitchedOn boot rom bus := by
  obtain ⟨bootRom, hb, _, rfl, rfl | rfl⟩ := new_eq_ok h
  · exact switchedOn_initial hb
  · exact (switchedOn_initial hb).set_bootOff 1

/-! ## What the processor sees of the boot ROM -/

theorem bootRomOf_eq_ok {bootRom : Option BootRom} (h : bootRomOf boot = .ok bootRom) :
    boot = bootRom.map BootRom.bytes := by
  cases boot with
  | none =>
    cases h
    rfl
  | some bytes =>
    rw [bootRomOf] at h
    split at h
    · cases h
      rfl
    · cases h

theorem bootRomOf_bytes (boot : BootRom) : bootRomOf (some boot.bytes) = .ok (some boot) :=
  dif_pos boot.size_bytes

theorem SwitchedOn.boot_eq (h : SwitchedOn boot rom bus) :
    boot = bus.bootRom.map BootRom.bytes :=
  bootRomOf_eq_ok h.bootRom_eq

end SystemBus

/-! ## The machine -/

namespace Machine

variable {boot rom : Option ByteArray} {m : Machine}

/-- A machine as it is when it is switched on. -/
structure SwitchedOn (boot rom : Option ByteArray) (m : Machine) : Prop where
  bus : m.bus.SwitchedOn boot rom
  cpu_eq : m.cpu = if boot.isSome then .startingAt 0 else .postBoot
  ppu_eq : m.ppu = {}
  timer_eq : m.timer = {}

theorem SwitchedOn.of_assemble (h : assemble boot rom = .ok m) : m.SwitchedOn boot rom := by
  rw [assemble] at h
  cases hh : headerOf rom with
  | error e =>
    rw [hh] at h
    cases h
  | ok header =>
    cases hb : SystemBus.new boot rom with
    | error e =>
      rw [hh, hb] at h
      cases h
    | ok bus =>
      rw [hh, hb] at h
      cases h
      exact ⟨SystemBus.switchedOn_of_new hb, rfl, rfl, rfl⟩

/-- A boot ROM of the right size is enough to switch a machine on. -/
theorem exists_assemble_boot (boot : BootRom) : ∃ m, assemble (some boot.bytes) none = .ok m := by
  rw [assemble, SystemBus.new, SystemBus.bootRomOf_bytes]
  exact ⟨_, rfl⟩

end Machine
end Handheld
