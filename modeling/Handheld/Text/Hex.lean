/-!
# Hexadecimal text

Bytes and addresses are always written in upper-case hexadecimal with a fixed number of digits, and
columns are padded with blanks on the right.
-/

set_option autoImplicit false

namespace Handheld
namespace Hex

/-- The upper-case hexadecimal digit of a number below sixteen. -/
def digit (n : Nat) : Char := Char.ofNat (if n < 10 then 48 + n else 55 + n)

/-- The last `width` hexadecimal digits of `n`, most significant first. -/
def digits : Nat → Nat → List Char
  | 0, _ => []
  | width + 1, n => digits width (n / 16) ++ [digit (n % 16)]

/-- A byte as two digits. -/
def byte (b : UInt8) : String := String.ofList (digits 2 b.toNat)

/-- A word as four digits. -/
def word (w : UInt16) : String := String.ofList (digits 4 w.toNat)

@[simp] theorem length_digits (width n : Nat) : (digits width n).length = width := by
  induction width generalizing n with
  | zero => rfl
  | succ width ih => simp [digits, ih]

end Hex

/-- The text, filled up with blanks on the right to at least `width` characters. -/
def padRight (width : Nat) (text : String) : String :=
  text ++ String.ofList (List.replicate (width - text.length) ' ')

end Handheld
