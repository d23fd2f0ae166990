/-!
# Reading whole numbers

A numeral is one or more digits of a base, with at most one plus sign before them.  It is read from
the left, and the first thing wrong with it is what is reported: a character that is no digit, or a
value that has grown past the limit.
-/

set_option autoImplicit false

namespace Handheld
namespace Numeral

/-- What is wrong with a text that should be a numeral. -/
inductive Fault where
  | empty
  | invalidDigit
  | tooLarge
  deriving DecidableEq

/-- The text of a fault. -/
def Fault.reason : Fault → String
  | empty => "cannot parse integer from empty string"
  | invalidDigit => "invalid digit found in string"
  | tooLarge => "number too large to fit in target type"

/-- The value of a letter or figure as a digit, from 0 to 35. -/
def digitValue? (c : Char) : Option Nat :=
  if '0' ≤ c ∧ c ≤ '9' then some (c.toNat - 48)
  else if 'A' ≤ c ∧ c ≤ 'Z' then some (c.toNat - 55)
  else if 'a' ≤ c ∧ c ≤ 'z' then some (c.toNat - 87)
  else none

/-- The value of a digit of a base. -/
def digit? (base : Nat) (c : Char) : Option Nat := (digitValue? c).filter (· < base)

/-- Reads digits on from the value of those before them. -/
def readDigits (base limit : Nat) : Nat → List Char → Except Fault Nat
  | value, [] => .ok value
  | value, c :: cs =>
    match digit? base c with
    | none => .error .invalidDigit
    | some d =>
      if base * value + d ≤ limit then readDigits base limit (base * value + d) cs
      else .error .tooLarge

/-- Reads a numeral whose value is at most `limit`. -/
def parse (base limit : Nat) : List Char → Except Fault Nat
  | [] => .error .empty
  | ['+'] => .error .invalidDigit
  | '+' :: cs => readDigits base limit 0 cs
  | cs => readDigits base limit 0 cs

end Numeral
end Handheld
