import Handheld.Video.Shade

/-!
# The screen

144 rows of 160 shades.  Rows are drawn whole, so a screen is a vector of rows.
-/

set_option autoImplicit false

namespace Handheld

def screenWidth : Nat := 160
def screenHeight : Nat := 144

/-- One row of the screen. -/
abbrev Row := Vector Shade screenWidth

/-- What is shown, row by row from the top. -/
structure Screen where
  rows : Vector Row screenHeight

namespace Screen

/-- The empty screen. -/
def blank : Screen := ⟨Vector.replicate screenHeight (Vector.replicate screenWidth .white)⟩

/-- The screen with a row replaced. -/
def setRow (s : Screen) (y : Fin screenHeight) (row : Row) : Screen := ⟨s.rows.set y.val row⟩

/-- A row of the screen. -/
def row (s : Screen) (y : Fin screenHeight) : Row := s.rows[y]

/-- All shades, row by row. -/
def shades (s : Screen) : Array Shade := s.rows.toArray.flatMap fun row ↦ row.toArray

/-- The screen as a picture: three bytes for each pixel, row by row. -/
def toRgb24 (s : Screen) : ByteArray :=
  s.shades.foldl (fun out shade ↦ shade.color.rgb.foldl ByteArray.push out)
    (ByteArray.emptyWithCapacity (3 * screenWidth * screenHeight))

@[simp] theorem row_setRow (s : Screen) (y z : Fin screenHeight) (r : Row) :
    (s.setRow y r).row z = if z = y then r else s.row z := by
  simp only [row, setRow, Fin.getElem_fin, Vector.getElem_set]
  by_cases h : z = y
  · simp [h]
  · rw [if_neg h, if_neg fun e ↦ h (Fin.ext e.symm)]

end Screen
end Handheld
