import Handheld.Proofs.Cpu.Dispatch
import Handheld.Proofs.Cpu.Stack
import Handheld.Proofs.Machine.Steps

/-!
# Serving all that is pending

When several interrupts are requested and enabled at once, they are served one after another, the
most urgent first, each as soon as the handler of the one before it has let interrupts in again.
This file follows that to its end, with handlers that do nothing but return: the processor goes to
each of them once, in order, and is then back where it was (`Core.drain_of_pending`).

A dispatch and the `reti` after it are one round, `Core.served`.  A round gives the processor its
registers back, since what the dispatch has pushed the `reti` takes off; it takes one request back;
and it leaves memory as pushing the return address does.  For the last two the stack has to be in
plain memory, where what is stored is read back and nothing else is disturbed, so the bus is any
`RamBus`: flat memory, or the bus of the handheld.  Every round pushes the same return address to
the same place, so after the first one no round changes anything there.
-/

set_option autoImplicit false

namespace Handheld

/-! ## The sources in a byte -/

namespace Interrupt

/-- The sources whose bits are set, most urgent first. -/
def sources (requests : UInt8) : List Interrupt := all.filter fun i ↦ requests &&& i.mask != 0

theorem mem_sources {requests : UInt8} {source : Interrupt} :
    source ∈ sources requests ↔ requests.toNat.testBit source.index := by
  have hall : source ∈ all := by cases source <;> decide
  have hbit : (requests &&& source.mask != 0) = requests.toNat.testBit source.index := by
    revert requests
    cases source <;> decide +kernel
  rw [sources, List.mem_filter, hbit]
  exact and_iff_right hall

theorem pairwise_sources (requests : UInt8) :
    (sources requests).Pairwise fun i j ↦ i.index < j.index :=
  List.Pairwise.filter _ (by decide)

theorem head?_sources (requests : UInt8) : (sources requests).head? = first? requests :=
  List.head?_filter

/-- After the most urgent source come those that are left when its request is taken back. -/
theorem sources_eq_cons {requests : UInt8} {source : Interrupt}
    (h : first? requests = some source) :
    sources requests = source :: sources (requests &&& ~~~source.mask) := by
  revert requests
  cases source <;> decide +kernel

/-- To take back the first request and then the others is to take back all of them. -/
theorem not_mask_and {requests : UInt8} {source : Interrupt} (h : first? requests = some source) :
    ~~~source.mask &&& ~~~(requests &&& ~~~source.mask) = ~~~requests := by
  revert requests
  cases source <;> decide +kernel

end Interrupt

/-- The processor as a handler leaves it that has only returned. -/
def Cpu.returned (cpu : Cpu) : Cpu :=
  { cpu with interruptsEnabled := true, enablePending := false, runState := .running }

namespace Core

variable {β : Type} [Bus β] {s : Core β} {source : Interrupt}

/-- Some steps in a row: what each of them did, and the clock cycles they took together.  The first
that fails ends it. -/
def steps (s : Core β) : Nat → Outcome (Core β) (List Action × Nat)
  | 0 => ⟨.ok ([], 0), s⟩
  | n + 1 =>
    s.step.andThen fun cycles s₁ ↦ (s₁.steps n).andThen fun done s₂ ↦
      ⟨.ok (s.nextAction :: done.1, cycles + done.2), s₂⟩

/-- Interrupts are let in, every handler is a `reti` below plain memory, and there is plain memory
for the return address. -/
structure HandlersReturn (s : Core β) : Prop where
  enabled : s.cpu.interruptsEnabled = true
  vector_lt : ∀ source : Interrupt, s.cpu.vectors.get source.index < 0x8000
  reti_at : ∀ source : Interrupt, s.read (s.cpu.vectors.get source.index) = 0xD9
  isRam_high : IsRam (s.regs.sp - 1)
  isRam_low : IsRam (s.regs.sp - 2)

/-- The core after an interrupt has been served whose handler has only returned. -/
def served (s : Core β) (source : Interrupt) : Core β := ⟨s.cpu.returned, (s.dispatch source).bus⟩

theorem HandlersReturn.room (h : s.HandlersReturn) : s.StackRoom := ⟨h.isRam_high, h.isRam_low⟩

/-! ## The bus in a round -/

variable [RamBus β]

/-- Outside plain memory nothing has changed. -/
theorem read_push_of_not_isRam (h : s.HandlersReturn) (w : UInt16) {b : UInt16} (hb : ¬IsRam b) :
    (s.push w).read b = s.read b := by
  rw [read_push h.room, if_neg (RamBus.home_ne h.isRam_low hb),
    if_neg (RamBus.home_ne h.isRam_high hb)]

/-- What the request byte is not, a round leaves as pushing the return address does. -/
theorem read_served_of_ne (s : Core β) (source : Interrupt) {b : UInt16}
    (hb : b ≠ interruptFlagAddress) : (s.served source).read b = (s.push s.regs.pc).read b :=
  RamBus.read_requests_of_ne _ _ hb

theorem read_interruptFlag_served (h : s.HandlersReturn) (source : Interrupt) :
    (s.served source).read interruptFlagAddress =
      s.read interruptFlagAddress &&& ~~~source.mask := by
  have hpush : (s.push s.regs.pc).read interruptFlagAddress = s.read interruptFlagAddress :=
    read_push_of_not_isRam h _ (by decide)
  have hbus : (s.served source).bus = Bus.write (s.push s.regs.pc).bus interruptFlagAddress
      ((s.push s.regs.pc).read interruptFlagAddress &&& ~~~source.mask) := by
    rw [hpush]
    rfl
  rw [← hpush, read, hbus]
  exact RamBus.read_takeBack _ source

theorem pending_served (h : s.HandlersReturn) (source : Interrupt) :
    (s.served source).pending = s.pending &&& ~~~source.mask := by
  have henable : (s.served source).read interruptEnableAddress = s.read interruptEnableAddress := by
    rw [read_served_of_ne s source (by decide), read_push_of_not_isRam h _ (by decide)]
  rw [pending, henable, read_interruptFlag_served h, pending]
  ac_rfl

/-! ## A round -/

/-- The word on top of the stack is the return address. -/
theorem top_dispatch (h : s.HandlersReturn) (source : Interrupt) :
    (s.dispatch source).top = s.regs.pc := by
  have hread (b : UInt16) (hb : b ≠ interruptFlagAddress) :
      (s.dispatch source).read b = (s.push s.regs.pc).read b := read_served_of_ne s source hb
  have hsp : s.regs.sp - 2 + 1 = s.regs.sp - 1 := by grind
  have hhigh : s.regs.sp - 2 + 1 ≠ interruptFlagAddress := by
    rw [hsp]
    exact h.isRam_high.ne_address .interruptFlag
  rw [← top_push h.room s.regs.pc]
  show Word.ofBytes ((s.dispatch source).read (s.regs.sp - 2 + 1))
    ((s.dispatch source).read (s.regs.sp - 2)) = _
  rw [hread _ hhigh, hread _ (h.isRam_low.ne_address .interruptFlag)]
  rfl

/-- The handlers are as they were. -/
theorem read_vector_served (h : s.HandlersReturn) (source other : Interrupt) :
    (s.served source).read (s.cpu.vectors.get other.index) = 0xD9 := by
  have hne : s.cpu.vectors.get other.index ≠ interruptFlagAddress := by
    intro he
    exact absurd (he ▸ h.vector_lt other) (by decide)
  have hrom : ¬IsRam (s.cpu.vectors.get other.index) := fun hram ↦
    absurd (h.vector_lt other) (UInt16.not_lt.2 hram.le)
  rw [read_served_of_ne s source hne, read_push_of_not_isRam h _ hrom, h.reti_at]

theorem HandlersReturn.served (h : s.HandlersReturn) (source : Interrupt) :
    (s.served source).HandlersReturn :=
  ⟨rfl, h.vector_lt, read_vector_served h source, h.isRam_high, h.isRam_low⟩

/-- The dispatch is followed by the `reti` at its handler. -/
theorem nextAction_dispatch (h : s.HandlersReturn) (source : Interrupt) :
    (s.dispatch source).nextAction = .execute .reti := by
  have hfetch : Instruction.fetch? (s.dispatch source).bus (s.dispatch source).regs.pc =
      some .reti := by
    show Instruction.decode ((s.served source).read (s.cpu.vectors.get source.index)) _ _ = _
    rw [read_vector_served h]
    rfl
  rw [nextAction_of_disabled rfl rfl, fetchAction_of_fetch hfetch]

omit [RamBus β] in
/-- A `reti` lets interrupts in at once, so there is no note to carry out after it. -/
theorem run_reti (s : Core β) :
    s.run .reti =
      ⟨{ s.cpu with
          regs := { s.regs with sp := s.regs.sp + 2, pc := s.top }
          interruptsEnabled := true
          enablePending := false
          runState := .running }, s.bus⟩ := by
  have hsettled (cpu : Cpu) (hno : cpu.enablePending = false) :
      settleEnable s.cpu.enablePending cpu = cpu := by
    rw [settleEnable, hno, Bool.and_false, if_neg Bool.false_ne_true]
  rw [run, hsettled _ rfl]
  rfl

/-- It gives the processor back the registers that the dispatch has changed. -/
theorem step_dispatch (h : s.HandlersReturn) (source : Interrupt) :
    (s.dispatch source).step = ⟨.ok 16, s.served source⟩ := by
  have hsp : (s.dispatch source).regs.sp + 2 = s.regs.sp := by
    show s.regs.sp - 2 + 2 = s.regs.sp
    grind
  rw [step_of_execute (nextAction_dispatch h source), run_reti, top_dispatch h, hsp]
  rfl

/-- **One round**: a dispatch and the `reti` after it. -/
theorem steps_served (h : s.HandlersReturn) (hfirst : Interrupt.first? s.pending = some source)
    {n : Nat} {done : List Action × Nat} {s' : Core β}
    (hrest : (s.served source).steps n = ⟨.ok done, s'⟩) :
    s.steps (n + 2) =
      ⟨.ok (.dispatch source :: .execute .reti :: done.1, 36 + done.2), s'⟩ := by
  have hdispatch := nextAction_eq_dispatch_iff.2 ⟨h.enabled, hfirst⟩
  rw [steps, step_of_dispatch hdispatch, hdispatch, Outcome.andThen_ok, steps, step_dispatch h,
    nextAction_dispatch h, Outcome.andThen_ok, hrest]
  simp only [Outcome.andThen_ok, ← Nat.add_assoc]

/-! ## All rounds -/

/-- When the first source has been served, the others are pending. -/
theorem first_of_sources (h : s.HandlersReturn) {sources : List Interrupt}
    (hs : Interrupt.sources s.pending = source :: sources) :
    Interrupt.first? s.pending = some source ∧
      Interrupt.sources (s.served source).pending = sources := by
  have hfirst : Interrupt.first? s.pending = some source := by
    rw [← Interrupt.head?_sources, hs, List.head?_cons]
  refine ⟨hfirst, ?_⟩
  rw [Interrupt.sources_eq_cons hfirst] at hs
  rw [pending_served h]
  exact List.tail_eq_of_cons_eq hs

/-- Each source is served in turn. -/
theorem steps_foldl_served (h : s.HandlersReturn) {sources : List Interrupt}
    (hs : Interrupt.sources s.pending = sources) :
    s.steps (2 * sources.length) =
      ⟨.ok (sources.flatMap fun source ↦ [.dispatch source, .execute .reti],
        36 * sources.length), sources.foldl served s⟩ := by
  induction sources generalizing s with
  | nil => rfl
  | cons source sources ih =>
    obtain ⟨hfirst, hrest⟩ := first_of_sources h hs
    rw [List.length_cons, Nat.mul_succ, steps_served h hfirst (ih (h.served source) hrest),
      Nat.mul_succ, Nat.add_comm 36]
    rfl

omit [RamBus β] in
/-- The first round brings the processor where the later ones leave it. -/
theorem cpu_foldl_served (s : Core β) {sources : List Interrupt} (hs : sources ≠ []) :
    (sources.foldl served s).cpu = s.cpu.returned := by
  induction sources generalizing s with
  | nil => exact absurd rfl hs
  | cons source sources ih =>
    cases sources with
    | nil => rfl
    | cons => exact ih (s.served source) (List.cons_ne_nil _ _)

/-- What was pending has been taken back, and nothing else. -/
theorem read_interruptFlag_foldl_served (h : s.HandlersReturn) {sources : List Interrupt}
    (hs : Interrupt.sources s.pending = sources) :
    (sources.foldl served s).read interruptFlagAddress =
      s.read interruptFlagAddress &&& ~~~s.pending := by
  induction sources generalizing s with
  | nil =>
    have hnone : s.pending = 0 := by
      rw [← first?_pending_eq_none_iff, ← Interrupt.head?_sources, hs, List.head?_nil]
    have hall : ∀ requests : UInt8, requests &&& ~~~0 = requests := by decide +kernel
    rw [hnone, hall]
    rfl
  | cons source sources ih =>
    obtain ⟨hfirst, hrest⟩ := first_of_sources h hs
    rw [List.foldl_cons, ih (h.served source) hrest, read_interruptFlag_served h,
      pending_served h, UInt8.and_assoc, Interrupt.not_mask_and hfirst]

/-- Every round pushes the same return address to the same place. -/
theorem read_push_served (h : s.HandlersReturn) (source : Interrupt) {b : UInt16}
    (hb : b ≠ interruptFlagAddress) :
    ((s.served source).push s.regs.pc).read b = (s.push s.regs.pc).read b := by
  have hsp : (s.served source).regs.sp = s.regs.sp := rfl
  rw [read_push (h.served source).room, hsp, read_served_of_ne s source hb, read_push h.room]
  -- what the later push sets, the earlier one has set to the same
  split
  · rfl
  split <;> rfl

theorem read_foldl_served (h : s.HandlersReturn) {sources : List Interrupt} (hs : sources ≠ [])
    {b : UInt16} (hb : b ≠ interruptFlagAddress) :
    (sources.foldl served s).read b = (s.push s.regs.pc).read b := by
  induction sources generalizing s with
  | nil => exact absurd rfl hs
  | cons source sources ih =>
    cases sources with
    | nil => exact read_served_of_ne s source hb
    | cons =>
      have hlater := ih (h.served source) (List.cons_ne_nil _ _)
      exact hlater.trans (read_push_served h source hb)

/-- **What is pending is served in order, and leaves no trace.**  Interrupts are let in, some are
pending, and all handlers only return.  Then the processor, whatever it was doing, goes to the
handlers of just those that are pending, to each of them once and in order of urgency, and comes
back from each before it goes to the next.  It is then where it was, and runs, with interrupts let
in and no note; their requests, and no others, have been taken back; and memory is as pushing the
return address once has left it. -/
theorem drain_of_pending (h : s.HandlersReturn) (hpending : s.pending ≠ 0) :
    ((Interrupt.sources s.pending).Pairwise fun i j ↦ i.index < j.index) ∧
      (∀ source, source ∈ Interrupt.sources s.pending ↔
        s.pending.toNat.testBit source.index) ∧
      ∃ bus, s.steps (2 * (Interrupt.sources s.pending).length) =
          ⟨.ok ((Interrupt.sources s.pending).flatMap fun source ↦
              [.dispatch source, .execute .reti],
            36 * (Interrupt.sources s.pending).length),
          ⟨{ s.cpu with
              interruptsEnabled := true
              enablePending := false
              runState := .running }, bus⟩⟩ ∧
        Bus.read bus interruptFlagAddress = s.read interruptFlagAddress &&& ~~~s.pending ∧
        ∀ b ≠ interruptFlagAddress, Bus.read bus b = (s.push s.regs.pc).read b := by
  have hsome : Interrupt.sources s.pending ≠ [] := by
    intro hnil
    rw [← List.head?_eq_none_iff, Interrupt.head?_sources, first?_pending_eq_none_iff] at hnil
    exact hpending hnil
  refine ⟨Interrupt.pairwise_sources _, fun _ ↦ Interrupt.mem_sources, _, ?_,
    read_interruptFlag_foldl_served h rfl, fun b hb ↦ read_foldl_served h hsome hb⟩
  rw [steps_foldl_served h rfl]
  exact congrArg (Outcome.mk _) (congrArg (Core.mk · _) (cpu_foldl_served s hsome))

/-! ## A processor asleep with three interrupts pending -/

omit [RamBus β]

/-- A processor that is halted, with interrupts let in and a note besides. -/
def asleep (bus : β) : Core β where
  cpu :=
    { regs := { sp := 0xD000, pc := 0x0150 }
      interruptsEnabled := true
      enablePending := true
      runState := .halted }
  bus

theorem handlersReturn_asleep {bus : β} (h : ∀ a < 0x8000, Bus.read bus a = 0xD9) :
    (asleep bus).HandlersReturn := by
  have hlt : ∀ source : Interrupt, InterruptVectors.standard.get source.index < 0x8000 := by
    intro source
    cases source <;> decide
  refine ⟨rfl, hlt, fun source ↦ h _ (hlt source), ?_, ?_⟩
  · show IsRam (0xD000 - 1)
    decide
  · show IsRam (0xD000 - 2)
    decide

/-- Memory in which every byte is a `reti`, as flat memory and as the image of the handheld.  Three
interrupts are served in six steps; of the request byte the bits are left that nothing enables. -/
theorem drain_of_pending_asleep :
    ∃ (memory : Memory) (image : SystemBus), (∀ a, memory.read a = 0xD9) ∧
      image.memory = memory ∧
      (∃ bus, (asleep memory).steps 6 =
          ⟨.ok ([.dispatch .vBlank, .execute .reti, .dispatch .serial, .execute .reti,
              .dispatch .joypad, .execute .reti], 108), ⟨(asleep memory).cpu.returned, bus⟩⟩ ∧
        Bus.read bus interruptFlagAddress = 0xC0) ∧
      ∃ bus, (asleep image).steps 6 =
          ⟨.ok ([.dispatch .vBlank, .execute .reti, .dispatch .serial, .execute .reti,
              .dispatch .joypad, .execute .reti], 108), ⟨(asleep image).cpu.returned, bus⟩⟩ ∧
        Bus.read bus interruptFlagAddress = 0xE0 := by
  obtain ⟨memory, hmemory⟩ : ∃ memory : Memory, ∀ a, memory.read a = 0xD9 :=
    ⟨.ofFn fun _ ↦ 0xD9, Memory.read_ofFn _⟩
  obtain ⟨image, himage, hboot⟩ : ∃ image : SystemBus, image.memory = memory ∧
      image.bootRom = none := ⟨{ memory, bootRom := none }, rfl, rfl⟩
  have hsources : Interrupt.sources 0x19 = [.vBlank, .serial, .joypad] := by decide
  refine ⟨memory, image, hmemory, himage, ?_, ?_⟩
  · have hread (a : UInt16) : (asleep memory).read a = 0xD9 := hmemory a
    have hreturn : (asleep memory).HandlersReturn := handlersReturn_asleep fun a _ ↦ hread a
    have hpending : (asleep memory).pending = 0x19 := by
      rw [pending, hread, hread]
      rfl
    obtain ⟨-, -, bus, hsteps, hflag, -⟩ := drain_of_pending hreturn (by rw [hpending]; decide)
    rw [hpending, hsources] at hsteps
    rw [hpending, hread] at hflag
    exact ⟨bus, hsteps, hflag⟩
  · have hpeek (a : UInt16) : image.peek a = 0xD9 := by
      rw [SystemBus.peek, himage, hmemory]
    have hreturn : (asleep image).HandlersReturn := by
      refine handlersReturn_asleep fun a ha ↦ (image.read_of_lt ha).trans ?_
      rw [hboot]
      exact hpeek a
    have hflag₀ : (asleep image).read interruptFlagAddress = 0xF9 := by
      rw [read_interruptFlag]
      exact congrArg (· ||| 0xE0) (hpeek _)
    have hpending : (asleep image).pending = 0x19 := by
      rw [pending_eq, asleep, SystemBus.get, SystemBus.get, hpeek, hpeek]
      rfl
    obtain ⟨-, -, bus, hsteps, hflag, -⟩ := drain_of_pending hreturn (by rw [hpending]; decide)
    rw [hpending, hsources] at hsteps
    rw [hpending, hflag₀] at hflag
    exact ⟨bus, hsteps, hflag⟩

end Core
end Handheld
