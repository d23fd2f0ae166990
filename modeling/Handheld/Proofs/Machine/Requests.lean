import Handheld.Proofs.Cpu.Dispatch
import Handheld.Proofs.Machine.PowerOn

/-!
# No request is lost

A request for an interrupt is a bit of the request byte.  Devices and keys set such bits and never
clear one, and they leave the upper three bits of the byte alone, so whatever requesting an
interrupt preserves, they preserve (`SystemBus.Unaffected.ofRequests`).  The processor clears bits in
two ways: it serves an interrupt (`Core.Serves`), or an instruction stores to the byte.

`Machine.requests_served` puts this together with what a dispatch does, over everything that can
happen to a machine from the moment it is switched on.
-/

set_option autoImplicit false

namespace Handheld

open SystemBus (Unaffected)

/-! ## The processor -/

namespace Core

/-- The processor leaves no more than five bits in the request byte. -/
theorem requests_le {s : Core SystemBus} (h : s.bus.get .interruptFlag ≤ 0x1F) :
    s.step.state.bus.get .interruptFlag ≤ 0x1F := by
  refine step_bus_of (P := fun bus : SystemBus ↦ bus.get .interruptFlag ≤ 0x1F) ?_ s h
  intro bus a v hbus
  show (bus.write a v).get .interruptFlag ≤ 0x1F
  rw [SystemBus.get_interruptFlag_write]
  split
  · exact UInt8.and_le_right
  · exact hbus

/-- Stores keep a request that none of them clears. -/
theorem testBit_replay {k : Nat} (hk : k < 5) (stores : List (UInt16 × UInt8)) (bus : SystemBus)
    (h : (bus.get .interruptFlag).toNat.testBit k)
    (hst : ∀ v, (interruptFlagAddress, v) ∈ stores → v.toNat.testBit k) :
    ((Bus.replay bus stores).get .interruptFlag).toNat.testBit k := by
  induction stores generalizing bus with
  | nil => exact h
  | cons store stores ih =>
    obtain ⟨a, v⟩ := store
    refine ih (bus.write a v) ?_ fun v' hv' ↦ hst v' (List.mem_cons_of_mem _ hv')
    rw [SystemBus.get_interruptFlag_write]
    split
    · rename_i ha
      have hv : v.toNat.testBit k := hst v (ha ▸ List.mem_cons_self)
      rw [Interrupt.testBit_and_five, hv, decide_eq_true hk]
      rfl
    · exact h

/-- The next step takes back request `k`: it serves that interrupt, or it carries out an instruction
that stores a byte without the bit to the request byte. -/
def TakesBack (s : Core SystemBus) (k : Nat) : Prop :=
  (∃ source, s.nextAction = .dispatch source ∧ source.index.val = k) ∨
    ∃ i v, s.nextAction = .execute i ∧ (interruptFlagAddress, v) ∈ s.stores ∧ ¬v.toNat.testBit k

/-- **A request stays until it is taken back.** -/
theorem testBit_step {s : Core SystemBus} {k : Nat} (hk : k < 5)
    (h : (s.bus.get .interruptFlag).toNat.testBit k) (hno : ¬s.TakesBack k) :
    (s.step.state.bus.get .interruptFlag).toNat.testBit k := by
  cases ha : s.nextAction with
  | dispatch source =>
    have hother : k ≠ source.index.val := fun e ↦ hno (Or.inl ⟨source, ha, e.symm⟩)
    exact ((serves_of_dispatch ha).requests k).2 ⟨hk, hother, h⟩
  | execute i =>
    rw [step_bus]
    exact testBit_replay hk _ _ h fun v hv ↦
      Decidable.byContradiction fun hclear ↦ hno (Or.inr ⟨i, v, ha, hv, hclear⟩)
  | _ =>
    rw [step, ha]
    exact h

end Core

/-! ## Runs -/

namespace Machine

/-- What can happen to a machine: a step, or a key event. -/
inductive Happening where
  | step
  | keys (event : InputEvent)

/-- The machine after something has happened to it; after a step that fails, as the failure leaves
it. -/
def after (m : Machine) : Happening → Machine
  | .step => m.step.state
  | .keys event => m.applyKeys event

theorem requests_le_after {m : Machine} (h : m.bus.get .interruptFlag ≤ 0x1F) (x : Happening) :
    (m.after x).bus.get .interruptFlag ≤ 0x1F := by
  have hle : ∀ (requests : UInt8) (source : Interrupt), requests ≤ 0x1F →
      requests ||| source.mask ≤ 0x1F := by
    intro requests source
    revert requests
    cases source <;> decide +kernel
  have hdevice {registers : List IoRegister} (hif : .interruptFlag ∉ registers) :
      Unaffected registers fun bus ↦ bus.get .interruptFlag ≤ 0x1F := .ofRequests hle hif
  cases x with
  | step => exact step_bus_of (hdevice (by decide)) (hdevice (by decide)) m (Core.requests_le h)
  | keys event => exact SystemBus.applyKeys_of (hdevice (by decide)) m.bus event h

theorem testBit_after {m : Machine} {k : Nat} (hk : k < 5)
    (h : (m.bus.get .interruptFlag).toNat.testBit k) (x : Happening)
    (hno : x = .step → ¬m.core.TakesBack k) :
    ((m.after x).bus.get .interruptFlag).toNat.testBit k := by
  have hset : ∀ (requests : UInt8) (source : Interrupt), requests.toNat.testBit k →
      (requests ||| source.mask).toNat.testBit k := by
    intro requests source hr
    rw [Interrupt.testBit_or_mask, hr]
    rfl
  have hdevice {registers : List IoRegister} (hif : .interruptFlag ∉ registers) :
      Unaffected registers fun bus ↦ (bus.get .interruptFlag).toNat.testBit k := .ofRequests hset hif
  cases x with
  | step =>
    exact step_bus_of (hdevice (by decide)) (hdevice (by decide)) m
      (Core.testBit_step hk h (hno rfl))
  | keys event => exact SystemBus.applyKeys_of (hdevice (by decide)) m.bus event h

/-- When the machine is switched on there is a single request, that of the vertical blank. -/
theorem get_interruptFlag_assemble {boot rom : Option ByteArray} {m : Machine}
    (h : assemble boot rom = .ok m) : m.bus.get .interruptFlag = 1 :=
  (SwitchedOn.of_assemble h).bus.get_eq .interruptFlag (by decide)

/-- At any time no more than five bits of the request byte are set. -/
theorem requests_le_run {m : Machine} (h : m.bus.get .interruptFlag ≤ 0x1F)
    (run : List Happening) : (run.foldl after m).bus.get .interruptFlag ≤ 0x1F := by
  induction run generalizing m with
  | nil => exact h
  | cons x run ih => exact ih (requests_le_after h x)

/-- **No request is lost, and none is served wrongly.**  Whenever an interrupt is requested, enabled
and let in, the next step serves the most urgent one, whatever the state of the bus and wherever the
stack is.  And in the life of a machine, through steps, failures and key events, a request that is
there stays, unless the step takes it back: by serving that very interrupt, or by an instruction
that stores to the request byte.  There are never more than five bits in it. -/
theorem requests_served :
    (∀ s : Core SystemBus, s.cpu.interruptsEnabled = true →
        s.bus.get .interruptEnable &&& s.bus.get .interruptFlag &&& 0x1F ≠ 0 →
          ∃ source, s.nextAction = .dispatch source ∧ s.Serves source) ∧
      ∀ (boot rom : Option ByteArray) (m : Machine), assemble boot rom = .ok m →
        ∀ run : List Happening,
          (run.foldl after m).bus.get .interruptFlag ≤ 0x1F ∧
            ∀ (x : Happening) (k : Nat),
              ((run.foldl after m).bus.get .interruptFlag).toNat.testBit k →
                (((run.foldl after m).after x).bus.get .interruptFlag).toNat.testBit k ∨
                  x = .step ∧ (run.foldl after m).core.TakesBack k := by
  refine ⟨fun s hon hp ↦ Core.serves_of_pending hon hp, fun boot rom m hm run ↦ ?_⟩
  have hle : (run.foldl after m).bus.get .interruptFlag ≤ 0x1F :=
    requests_le_run (by rw [get_interruptFlag_assemble hm]; decide) run
  refine ⟨hle, fun x k hk ↦ ?_⟩
  by_cases hx : x = .step ∧ (run.foldl after m).core.TakesBack k
  · exact Or.inr hx
  · exact Or.inl (testBit_after (Interrupt.lt_five_of_testBit hle hk) hk x fun hs ht ↦ hx ⟨hs, ht⟩)

/-- A processor whose stack is about to grow onto the request byte, with two interrupts requested
and all enabled. -/
def stackOnRequests : Core SystemBus where
  cpu := { regs := { sp := 0xFF10, pc := 0x1234 }, interruptsEnabled := true }
  bus := (SystemBus.blank.set .interruptEnable 0x1F).set .interruptFlag 0x05

/-- An interrupt is served while the stack is on the request byte; and in a machine without boot ROM
and cartridge, the request with which it is switched on is there until it is taken back. -/
theorem requests_served_stackOnRequests :
    (∃ source, stackOnRequests.Serves source) ∧
      ∃ m, assemble none none = .ok m ∧ (m.bus.get .interruptFlag).toNat.testBit 0 ∧
        (((m.after .step).bus.get .interruptFlag).toNat.testBit 0 ∨ m.core.TakesBack 0) := by
  constructor
  · obtain ⟨source, -, hs⟩ := requests_served.1 stackOnRequests rfl (by
      rw [stackOnRequests, SystemBus.get_set_self, SystemBus.get_set_of_ne _ _ (by decide),
        SystemBus.get_set_self]
      decide)
    exact ⟨source, hs⟩
  · obtain ⟨m, hm⟩ : ∃ m, assemble none none = .ok m := ⟨_, rfl⟩
    have hk : (m.bus.get .interruptFlag).toNat.testBit 0 := by
      rw [get_interruptFlag_assemble hm]
      decide
    refine ⟨m, hm, hk, ?_⟩
    exact ((requests_served.2 none none m hm []).2 .step 0 hk).imp_right And.right

end Machine
end Handheld
