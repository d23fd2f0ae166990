/-!
# Sixteen-bit words and their halves

The processor moves bytes, and addresses are words of two of them.  A word is written with its high
byte first: `Word.ofBytes hi lo`.  The functions here are arithmetic on `UInt16` (multiples of 256
and remainders), so what they do is visible to `omega` once words are read as natural numbers; that
`hi` and `lo` invert `ofBytes`, and it them, is all the rest of the library uses.
-/

set_option autoImplicit false

namespace Handheld
namespace Word

/-- The word with high byte `hi` and low byte `lo`. -/
def ofBytes (hi lo : UInt8) : UInt16 := hi.toUInt16 * 256 + lo.toUInt16

/-- The high byte of a word. -/
def hi (w : UInt16) : UInt8 := (w / 256).toUInt8

/-- The low byte of a word. -/
def lo (w : UInt16) : UInt8 := w.toUInt8

/-- The word with its high byte replaced. -/
def withHi (w : UInt16) (b : UInt8) : UInt16 := ofBytes b (lo w)

/-- The word with its low byte replaced. -/
def withLo (w : UInt16) (b : UInt8) : UInt16 := ofBytes (hi w) b

/-- A byte read as a signed displacement: `0x80` and above count down from the next multiple. -/
def signExtend (b : UInt8) : UInt16 := if b < 0x80 then b.toUInt16 else b.toUInt16 + 0xFF00

/-- A byte read as a signed number, from -128 to 127. -/
def signed (b : UInt8) : Int := if b < 0x80 then b.toNat else (b.toNat : Int) - 256

theorem toNat_ofBytes (hi lo : UInt8) : (ofBytes hi lo).toNat = 256 * hi.toNat + lo.toNat := by
  have h := hi.toNat_lt
  have l := lo.toNat_lt
  simp only [ofBytes, UInt16.toNat_add, UInt16.toNat_mul, UInt8.toNat_toUInt16,
    UInt16.reduceToNat]
  omega

theorem toNat_hi (w : UInt16) : (hi w).toNat = w.toNat / 256 := by
  have h := w.toNat_lt
  simp only [hi, UInt16.toNat_toUInt8, UInt16.toNat_div, UInt16.reduceToNat]
  omega

theorem toNat_lo (w : UInt16) : (lo w).toNat = w.toNat % 256 := by
  simp [lo]

@[simp] theorem hi_ofBytes (a b : UInt8) : hi (ofBytes a b) = a := by
  apply UInt8.toNat_inj.1
  have := b.toNat_lt
  rw [toNat_hi, toNat_ofBytes]
  omega

@[simp] theorem lo_ofBytes (a b : UInt8) : lo (ofBytes a b) = b := by
  apply UInt8.toNat_inj.1
  have := b.toNat_lt
  rw [toNat_lo, toNat_ofBytes]
  omega

@[simp] theorem ofBytes_hi_lo (w : UInt16) : ofBytes (hi w) (lo w) = w := by
  apply UInt16.toNat_inj.1
  rw [toNat_ofBytes, toNat_hi, toNat_lo]
  omega

end Word
end Handheld
