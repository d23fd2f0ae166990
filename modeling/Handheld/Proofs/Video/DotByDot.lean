import Handheld.Proofs.Machine.Steps
import Handheld.Proofs.Video.Settled

/-!
# Chunks are as good as dots

A tick passes over a line in at most three chunks, and what is to be done is done at the end of
each.  This file shows that nothing is missed inside them: from a settled unit, a tick of `n` dots
is the same as `n` ticks of one dot (`Scan.tick_eq_tickDots`), failures included, and so it does not
matter either how a tick is divided (`Scan.tick_add`).

The reason is in `Scan.Settled.chunk_of_lt`.  Before the next boundary the mode stays what it is, so
there is no change to act on; and a unit that is settled is settled one dot further on as well, so
updating its status register does nothing.  Such a chunk moves the beam and that is all
(`Scan.Settled.advance`), which means that it can be put in front of any other chunk that does not
go beyond the same boundary (`Scan.chunk_add`).
-/

set_option autoImplicit false

namespace Handheld
namespace Scan

variable {s s' : Scan}

/-- Lets `n` dots pass one at a time, up to the first failure. -/
def tickDots (s : Scan) : Nat → Outcome Scan Unit
  | 0 => ⟨.ok (), s⟩
  | n + 1 => (s.tick 1).andThen fun _ s ↦ s.tickDots n

/-! ## Inside a chunk -/

theorem dotsToBoundary_le {dot : Nat} (h : dot < lineDots) :
    dot + dotsToBoundary dot ≤ lineDots := by
  grind [dotsToBoundary, lineDots, searchEnd, drawEnd]

/-- Before the boundary the mode does not change. -/
theorem ofPosition_add_of_lt {line dot dots : Nat} (h : dots < dotsToBoundary dot) :
    Mode.ofPosition line (dot + dots) = Mode.ofPosition line dot := by
  -- in each of the three stretches both positions are on the same side of both ends
  grind [dotsToBoundary, Mode.ofPosition, lineDots, searchEnd, drawEnd]

/-- The boundary comes nearer by the dots that have passed. -/
theorem dotsToBoundary_add {dot dots : Nat} (h : dots < dotsToBoundary dot) :
    dotsToBoundary (dot + dots) = dotsToBoundary dot - dots := by
  grind [dotsToBoundary, lineDots, searchEnd, drawEnd]

theorem advance_of_lt {dots : Nat} (h : s.ppu.dot + dots < lineDots) :
    s.advance dots = { s with ppu := { s.ppu with dot := s.ppu.dot + dots } } := by
  rw [advance, if_pos h]

/-- A settled unit stays settled up to the boundary. -/
theorem Settled.advance {dots : Nat} (h : s.Settled) (hlt : dots < dotsToBoundary s.ppu.dot) :
    s.advance dots = { s with ppu := { s.ppu with dot := s.ppu.dot + dots } } ∧
      (s.advance dots).Settled := by
  have hle := dotsToBoundary_le h.dot_lt
  have hadv := advance_of_lt (s := s) (by omega : s.ppu.dot + dots < lineDots)
  refine ⟨hadv, ?_⟩
  rw [hadv]
  refine ⟨by show s.ppu.dot + dots < lineDots; omega, h.line_lt, ?_, h.modeBits, h.coincidenceBit,
    h.statLine_eq⟩
  show s.ppu.mode = Mode.ofPosition s.ppu.line (s.ppu.dot + dots)
  rw [ofPosition_add_of_lt hlt, h.mode_eq]

/-- **A chunk that does not reach the boundary moves the beam and does nothing else.** -/
theorem Settled.chunk_of_lt {dots : Nat} (h : s.Settled)
    (hlt : dots < dotsToBoundary s.ppu.dot) : s.chunk dots = ⟨.ok (), s.advance dots⟩ := by
  have hset := (h.advance hlt).2
  have hmode : (s.advance dots).updateMode = ⟨.ok (), s.advance dots⟩ := by
    rw [updateMode, ← hset.mode_eq, if_pos rfl]
  rw [chunk, hmode]
  dsimp only
  rw [hset.updateStatus_eq]

/-- Two stretches before the same boundary are one. -/
theorem chunk_add {a b : Nat} (h : s.ppu.dot + a < lineDots) :
    s.chunk (a + b) = (s.advance a).chunk b := by
  have hadd : s.advance (a + b) = (s.advance a).advance b := by
    rw [advance_of_lt h, advance, advance]
    dsimp only
    rw [Nat.add_assoc]
  rw [chunk, chunk, hadd]

/-! ## Ticks -/

theorem tick_zero (s : Scan) : s.tick 0 = ⟨.ok (), s⟩ := by
  rw [tick, dif_pos rfl]

/-- A tick is its first chunk and then the rest. -/
theorem tick_eq_chunk {dots : Nat} (h : dots ≠ 0) :
    s.tick dots = (s.chunk (min dots (dotsToBoundary s.ppu.dot))).andThen fun _ s' ↦
      s'.tick (dots - min dots (dotsToBoundary s.ppu.dot)) := by
  rw [tick, dif_neg h]
  dsimp only
  rcases s.chunk (min dots (dotsToBoundary s.ppu.dot)) with ⟨e | ⟨⟩, s'⟩ <;> rfl

/-- What holds of a tick that has no dots, and of any tick when it holds of the rest that the first
chunk leaves, holds of all ticks. -/
theorem tick_induction {motive : Scan → Nat → Prop} (zero : ∀ s, motive s 0)
    (chunk : ∀ s dots, dots ≠ 0 →
      (∀ s', motive s' (dots - min dots (dotsToBoundary s.ppu.dot))) → motive s dots)
    (s : Scan) (dots : Nat) : motive s dots := by
  induction dots using Nat.strongRecOn generalizing s with
  | ind dots ih =>
    by_cases hdots : dots = 0
    · exact hdots ▸ zero s
    · have hpos := dotsToBoundary_pos s.ppu.dot
      exact chunk s dots hdots (ih _ (by omega))

theorem tick_one (s : Scan) : s.tick 1 = s.chunk 1 := by
  have hmin : min 1 (dotsToBoundary s.ppu.dot) = 1 := Nat.min_eq_left (dotsToBoundary_pos _)
  rw [tick_eq_chunk Nat.one_ne_zero, hmin]
  rcases s.chunk 1 with ⟨e | ⟨⟩, s'⟩
  · rfl
  · exact tick_zero s'

/-- A tick that ends before the next boundary moves the beam and that is all. -/
theorem Settled.tick_of_lt {dots : Nat} (h : s.Settled) (hlt : dots < dotsToBoundary s.ppu.dot) :
    s.tick dots = ⟨.ok (), { s with ppu := { s.ppu with dot := s.ppu.dot + dots } }⟩ := by
  rcases Nat.eq_zero_or_pos dots with rfl | hpos
  · exact tick_zero s
  · rw [tick_eq_chunk (Nat.ne_of_gt hpos), Nat.min_eq_left (Nat.le_of_lt hlt),
      h.chunk_of_lt hlt, Outcome.andThen_ok, Nat.sub_self, tick_zero, (h.advance hlt).1]

/-- **From a settled unit, the first dot of a tick can be taken alone.** -/
theorem Settled.tick_succ (h : s.Settled) (n : Nat) :
    s.tick (n + 1) = (s.tick 1).andThen fun _ s' ↦ s'.tick n := by
  rw [tick_one, tick_eq_chunk n.succ_ne_zero]
  have hpos := dotsToBoundary_pos s.ppu.dot
  rcases Nat.lt_or_ge 1 (min (n + 1) (dotsToBoundary s.ppu.dot)) with hlt | hle
  · -- the chunk goes on after its first dot, which therefore does not reach the boundary
    have hlt' : 1 < dotsToBoundary s.ppu.dot := by omega
    obtain ⟨hadv, -⟩ := h.advance hlt'
    have hdot : (s.advance 1).ppu.dot = s.ppu.dot + 1 := by rw [hadv]
    have hnow : min (n + 1) (dotsToBoundary s.ppu.dot)
        = 1 + min n (dotsToBoundary (s.advance 1).ppu.dot) := by
      rw [hdot, dotsToBoundary_add hlt']
      omega
    have hrest : n + 1 - (1 + min n (dotsToBoundary (s.advance 1).ppu.dot))
        = n - min n (dotsToBoundary (s.advance 1).ppu.dot) := by omega
    have hle := dotsToBoundary_le h.dot_lt
    rw [hnow, chunk_add (by omega), hrest, h.chunk_of_lt hlt', Outcome.andThen_ok,
      tick_eq_chunk (by omega : n ≠ 0)]
  · have hnow : min (n + 1) (dotsToBoundary s.ppu.dot) = 1 := by omega
    rw [hnow]
    rfl

/-- A settled unit stays settled through any tick that succeeds. -/
theorem Settled.of_tick {n : Nat} (h : s.Settled) (ht : s.tick n = ⟨.ok (), s'⟩) :
    s'.Settled := by
  induction s, n using tick_induction with
  | zero s =>
    rw [tick_zero] at ht
    cases ht
    exact h
  | chunk s n hn ih =>
    rw [tick_eq_chunk hn] at ht
    obtain ⟨_, s₁, hchunk, hrest⟩ := Outcome.andThen_eq_ok.1 ht
    exact ih s₁ (settled_of_chunk_eq_ok h.line_lt hchunk) hrest

/-- **Any tick that takes time and succeeds leaves a settled unit**, whatever the registers were
before. -/
theorem settled_of_tick {n : Nat} (hline : s.ppu.line < frameLines) (hn : n ≠ 0)
    (ht : s.tick n = ⟨.ok (), s'⟩) : s'.Settled := by
  rw [tick_eq_chunk hn] at ht
  obtain ⟨_, s₁, hchunk, hrest⟩ := Outcome.andThen_eq_ok.1 ht
  exact (settled_of_chunk_eq_ok hline hchunk).of_tick hrest

/-- **A tick is as many ticks of one dot.** -/
theorem tick_eq_tickDots (h : s.Settled) (n : Nat) : s.tick n = s.tickDots n := by
  induction n generalizing s with
  | zero => exact tick_zero s
  | succ n ih =>
    rw [h.tick_succ n, tickDots]
    rcases ht : s.tick 1 with ⟨e | ⟨⟩, s'⟩
    · rfl
    · exact ih (h.of_tick ht)

/-- **It does not matter how a tick is divided.** -/
theorem tick_add (h : s.Settled) (a b : Nat) :
    s.tick (a + b) = (s.tick a).andThen fun _ s' ↦ s'.tick b := by
  induction a generalizing s with
  | zero => rw [Nat.zero_add, tick_zero, Outcome.andThen_ok]
  | succ a ih =>
    rw [Nat.succ_add, h.tick_succ (a + b), h.tick_succ a]
    rcases ht : s.tick 1 with ⟨e | ⟨⟩, s'⟩
    · rfl
    · exact ih (h.of_tick ht)

/-- A unit at the start of a frame, where it is to be told about the first line. -/
def topOfFrame (bus : SystemBus) : Scan :=
  { ppu := { statLine := true }, bus := bus.set .lcdStatus 0x46 }

theorem settled_topOfFrame {bus : SystemBus} (h : bus.IsBlank) : (topOfFrame bus).Settled := by
  have hstat : (topOfFrame bus).bus.get .lcdStatus = 0x46 := SystemBus.get_set_self _ _ _
  have hc : (topOfFrame bus).coincidence = true := by
    have hlyc : (topOfFrame bus).bus.get .lcdYCompare = 0 :=
      (SystemBus.get_set_of_ne _ _ (by decide)).trans (h.peek_eq _)
    rw [coincidence, hlyc]
    rfl
  refine ⟨(by decide : 0 < lineDots), (by decide : 0 < frameLines), rfl, ?_, ?_, ?_⟩
  · rw [hstat]
    rfl
  · rw [hstat, hc]
    decide
  · rw [statCondition, hstat, hc]
    rfl

/-- **Chunk by chunk and dot by dot are the same.**  From a settled unit a tick of any length gives
the answer, the unit and the bus that as many ticks of one dot give, which stop at the first
failure; so a tick can be divided in two at any place. -/
theorem tick_chunks_eq_dots (h : s.Settled) :
    (∀ n, s.tick n = s.tickDots n) ∧
      ∀ a b, s.tick (a + b) = (s.tick a).andThen fun _ s' ↦ s'.tick b :=
  ⟨tick_eq_tickDots h, tick_add h⟩

/-- So it is from the start of a frame. -/
theorem tick_chunks_eq_dots_topOfFrame :
    (topOfFrame .blank).Settled ∧
      (∀ n, (topOfFrame .blank).tick n = (topOfFrame .blank).tickDots n) ∧
      ∀ a b, (topOfFrame .blank).tick (a + b)
        = ((topOfFrame .blank).tick a).andThen fun _ s ↦ s.tick b :=
  ⟨settled_topOfFrame SystemBus.isBlank_blank,
    tick_chunks_eq_dots (settled_topOfFrame SystemBus.isBlank_blank)⟩

end Scan
end Handheld
