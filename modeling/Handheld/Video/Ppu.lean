import Handheld.Video.Mode
import Handheld.Video.Scanline

/-!
# The picture unit

`Ppu` is the position of the beam, the mode it last was in, the screen, and the number of frames
begun.  A `Scan` is a picture unit on the system bus, whose registers it reads and writes and whose
video memory it draws from.

Time passes in chunks that end where the mode may change (`Scan.tick`), so nothing that happens at
such a point is missed, however long a tick is.  At the end of each chunk

* the line register is written if a line has ended;
* a change of mode is acted on: a visible line is drawn when its drawing time is over, and the first
  line after the visible ones begins a frame and asks for an interrupt;
* the status register is brought up to date, and the status interrupt is asked for when its
  condition becomes true.
-/

set_option autoImplicit false

namespace Handheld

/-- The state of the picture unit. -/
structure Ppu where
  /-- The position in the line. -/
  dot : Nat := 0
  line : Nat := 0
  /-- The mode after the last tick. -/
  mode : Mode := .search
  /-- The condition of the status interrupt after the last tick. -/
  statLine : Bool := false
  /-- The number of vertical blanks begun. -/
  frameCount : Nat := 0
  screen : Screen := .blank

/-- A picture unit on the bus. -/
structure Scan where
  ppu : Ppu
  bus : SystemBus

namespace Scan

/-! ## The status register -/

/-- Whether the line being drawn is the one to be told about. -/
def coincidence (s : Scan) : Bool := UInt8.ofNat s.ppu.line == s.bus.get .lcdYCompare

/-- The status register as it should be: the bits that select interrupts as they stand, the
coincidence, the mode. -/
def status (s : Scan) : UInt8 :=
  (s.bus.get .lcdStatus &&& 0xF8) ||| s.ppu.mode.number ||| (if s.coincidence then 0x04 else 0)

/-- Whether a mode is selected to ask for an interrupt. -/
def modeSelected (select : UInt8) : Mode → Bool
  | .hBlank => select.toNat.testBit 3
  | .vBlank => select.toNat.testBit 4
  | .search => select.toNat.testBit 5
  | .draw => false

/-- The condition of the status interrupt: the coincidence if it is selected, or the mode if that
is. -/
def statCondition (s : Scan) : Bool :=
  let select := s.bus.get .lcdStatus
  (s.coincidence && select.toNat.testBit 6) || modeSelected select s.ppu.mode

/-- Brings the status register up to date, and asks for the interrupt when its condition has become
true. -/
def updateStatus (s : Scan) : Scan :=
  let condition := s.statCondition
  let bus := s.bus.set .lcdStatus s.status
  { ppu := { s.ppu with statLine := condition }
    bus := if condition && !s.ppu.statLine then bus.request .lcdStat else bus }

/-! ## Changes of mode -/

/-- Draws the current line, if it is visible and the screen is on. -/
def drawLine (s : Scan) : Outcome Scan Unit :=
  if h : s.ppu.line < screenHeight then
    if s.bus.lcdControl.screenOn then
      let drawn := Scanline.render s.bus s.ppu.line
      { answer := drawn.answer
        state :=
          { s with ppu := { s.ppu with screen := s.ppu.screen.setRow ⟨s.ppu.line, h⟩ drawn.state } } }
    else { answer := .ok (), state := s }
  else { answer := .ok (), state := s }

/-- Counts a frame and asks for the interrupt. -/
def beginFrame (s : Scan) : Scan :=
  { ppu := { s.ppu with frameCount := s.ppu.frameCount + 1 }, bus := s.bus.request .vBlank }

/-- Acts on a change of mode, if there is one. -/
def updateMode (s : Scan) : Outcome Scan Unit :=
  let mode := Mode.ofPosition s.ppu.line s.ppu.dot
  if mode = s.ppu.mode then { answer := .ok (), state := s }
  else
    let s : Scan := { s with ppu := { s.ppu with mode } }
    match mode with
    | .hBlank => s.drawLine
    | .vBlank => { answer := .ok (), state := s.beginFrame }
    | .search | .draw => { answer := .ok (), state := s }

/-! ## Time -/

/-- Moves the beam on within the line, to the next line if this one is over. -/
def advance (s : Scan) (dots : Nat) : Scan :=
  let dot := s.ppu.dot + dots
  if dot < lineDots then { s with ppu := { s.ppu with dot } }
  else
    let line := (s.ppu.line + 1) % frameLines
    { ppu := { s.ppu with dot := 0, line }, bus := s.bus.set .lcdY (UInt8.ofNat line) }

/-- The dots to the next point at which the mode may change. -/
def dotsToBoundary (dot : Nat) : Nat :=
  if dot < searchEnd then searchEnd - dot
  else if dot < drawEnd then drawEnd - dot
  else if dot < lineDots then lineDots - dot
  else 1

/-- One chunk: moves the beam, then does what is to be done at its end. -/
def chunk (s : Scan) (dots : Nat) : Outcome Scan Unit :=
  let moved := (s.advance dots).updateMode
  match moved.answer with
  | .ok () => { answer := .ok (), state := moved.state.updateStatus }
  | .error e => { answer := .error e, state := moved.state }

theorem dotsToBoundary_pos (dot : Nat) : 0 < dotsToBoundary dot := by
  unfold dotsToBoundary
  (repeat' split) <;> omega

/-- Lets time pass, chunk by chunk, up to the first failure. -/
def tick (s : Scan) (dots : Nat) : Outcome Scan Unit :=
  if _ : dots = 0 then { answer := .ok (), state := s }
  else
    let now := min dots (dotsToBoundary s.ppu.dot)
    let done := s.chunk now
    match done.answer with
    | .ok () => done.state.tick (dots - now)
    | .error e => { answer := .error e, state := done.state }
termination_by dots
decreasing_by
  have := dotsToBoundary_pos s.ppu.dot
  omega

end Scan
end Handheld
