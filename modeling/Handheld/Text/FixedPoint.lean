/-!
# Numbers with two places

A binary fraction `m · 2^e` written with two decimal places.  The value is rounded exactly, to the
nearest hundredth; a tie goes to the even one.  `ofFloat32` writes a single-precision number this
way, by taking its significand and exponent apart.
-/

set_option autoImplicit false

namespace Handheld
namespace FixedPoint

/-- The quotient rounded to the nearest whole number, a tie to the even one. -/
def roundDiv (num den : Nat) : Nat :=
  let q := num / den
  let r := num % den
  if 2 * r < den then q else if 2 * r > den then q + 1 else q + q % 2

/-- A number of hundredths with a point before the last two digits. -/
def renderHundredths (n : Nat) : String :=
  toString (n / 100) ++ "." ++ toString (n % 100 / 10) ++ toString (n % 10)

/-- The hundredths in `m · 2^e`, rounded. -/
def hundredths (m : Nat) (e : Int) : Nat :=
  if e < 0 then roundDiv (100 * m) (1 <<< e.natAbs) else (100 * m) <<< e.toNat

/-- A single-precision number with two places. -/
def ofFloat32 (x : Float32) : String :=
  let bits := x.toBits.toNat
  let sign := if bits >>> 31 = 1 then "-" else ""
  let exponent : Nat := (bits >>> 23) % 256
  let fraction : Nat := bits % (1 <<< 23)
  if exponent = 255 then if fraction = 0 then sign ++ "inf" else "NaN"
  else
    let m := if exponent = 0 then fraction else (1 <<< 23) + fraction
    sign ++ renderHundredths (hundredths m (Int.ofNat (max exponent 1) - 150))

/-- **The rounded quotient is within half a unit of the quotient.** -/
theorem roundDiv_near (num den : Nat) (h : 0 < den) :
    2 * num ≤ 2 * den * roundDiv num den + den ∧ 2 * den * roundDiv num den ≤ 2 * num + den := by
  have hd := Nat.div_add_mod num den
  have hm := Nat.mod_lt num h
  have key : ∀ q r : Nat, den * q + r = num → 2 * den * q = 2 * num - 2 * r ∧ 2 * r ≤ 2 * num := by
    intro q r e
    subst e
    have : 2 * den * q = 2 * (den * q) := Nat.mul_assoc 2 den q
    omega
  obtain ⟨e, le⟩ := key _ _ hd
  have step : 2 * den * (num / den + 1) = 2 * den * (num / den) + 2 * den := by
    rw [Nat.mul_add, Nat.mul_one]
  unfold roundDiv
  simp only
  split
  · omega
  · split
    · omega
    · rcases Nat.mod_two_eq_zero_or_one (num / den) with h0 | h1
      · rw [h0, Nat.add_zero]; omega
      · rw [h1]; omega

end FixedPoint
end Handheld
