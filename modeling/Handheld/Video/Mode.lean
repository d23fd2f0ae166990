import Handheld.Video.Screen

/-!
# The beam and its modes

The picture is drawn line by line.  A line takes 456 dots, a dot being one clock cycle, and a frame
has 154 lines, of which the first 144 are visible.  On a visible line the unit first searches the
sprite table, then draws, then rests; on the others it rests throughout.  So the mode is a function
of the position.
-/

set_option autoImplicit false

namespace Handheld

/-- The dots of a line. -/
def lineDots : Nat := 456

/-- The lines of a frame, visible or not. -/
def frameLines : Nat := 154

/-- The dots of a frame. -/
def frameDots : Nat := lineDots * frameLines

/-- The dot at which the search of the sprite table ends. -/
def searchEnd : Nat := 80

/-- The dot at which drawing ends. -/
def drawEnd : Nat := 250

/-- What the picture unit is doing. -/
inductive Mode where
  | hBlank
  | vBlank
  | search
  | draw
  deriving DecidableEq

namespace Mode

/-- The number that the status register shows for a mode. -/
def number : Mode → UInt8
  | hBlank => 0
  | vBlank => 1
  | search => 2
  | draw => 3

def name : Mode → String
  | hBlank => "HBlank"
  | vBlank => "VBlank"
  | search => "SearchingOam"
  | draw => "TransferringData"

/-- The mode at a position. -/
def ofPosition (line dot : Nat) : Mode :=
  if line ≥ screenHeight then vBlank
  else if dot < searchEnd then search
  else if dot < drawEnd then draw
  else hBlank

end Mode
end Handheld
