/-!
# Reading text that may not be text

`Utf8.decodeLossy` reads bytes as UTF-8 and never fails.  Where the bytes are not well formed it
takes away as much as could still have become a character, at least one byte, and puts the
replacement character in its place.

A first byte says how many follow and in which range the first of those has to be: the ranges leave
out encodings that are too long, the surrogates, and everything past the last code point.  All
further bytes are in `0x80`–`0xBF`.
-/

set_option autoImplicit false

namespace Handheld
namespace Utf8

/-- What a first byte announces: its own bits, the number of bytes to follow, and the range of the
first of them. -/
structure Lead where
  bits : Nat
  following : Nat
  low : UInt8 := 0x80
  high : UInt8 := 0xBF

/-- The lead that a byte is, if it is one. -/
def lead? (b : UInt8) : Option Lead :=
  if b < 0x80 then some { bits := b.toNat, following := 0 }
  else if b < 0xC2 then none
  else if b < 0xE0 then some { bits := b.toNat % 32, following := 1 }
  else if b = 0xE0 then some { bits := 0, following := 2, low := 0xA0 }
  else if b = 0xED then some { bits := 13, following := 2, high := 0x9F }
  else if b < 0xF0 then some { bits := b.toNat % 16, following := 2 }
  else if b = 0xF0 then some { bits := 0, following := 3, low := 0x90 }
  else if b < 0xF4 then some { bits := b.toNat % 8, following := 3 }
  else if b = 0xF4 then some { bits := 4, following := 3, high := 0x8F }
  else none

/-- The character that stands for what could not be read. -/
def replacement : Char := '\uFFFD'

/-- Where a reader is: between characters, or inside one. -/
inductive Position where
  | between
  /-- Inside a character: the bits so far, how many bytes are to come, and the range of the next. -/
  | inside (bits following : Nat) (low high : UInt8)

/-- Reads a byte that begins a character. -/
def begin (b : UInt8) : List Char × Position :=
  match lead? b with
  | none => ([replacement], .between)
  | some l =>
    match l.following with
    | 0 => ([Char.ofNat l.bits], .between)
    | n => ([], .inside l.bits n l.low l.high)

/-- Reads one byte: the characters it completes, and where it leaves the reader. -/
def readByte (position : Position) (b : UInt8) : List Char × Position :=
  match position with
  | .between => begin b
  | .inside bits following low high =>
    if low ≤ b ∧ b ≤ high then
      let bits := 64 * bits + b.toNat % 64
      match following with
      | 0 | 1 => ([Char.ofNat bits], .between)
      | n + 1 => ([], .inside bits n 0x80 0xBF)
    else
      let next := begin b
      (replacement :: next.1, next.2)

/-- Reads bytes from a position on. -/
def decodeFrom (position : Position) : List UInt8 → List Char
  | [] =>
    match position with
    | .between => []
    | .inside .. => [replacement]
  | b :: rest =>
    let next := readByte position b
    next.1 ++ decodeFrom next.2 rest

/-- The characters that bytes stand for. -/
def decodeLossy (bytes : List UInt8) : List Char := decodeFrom .between bytes

end Utf8
end Handheld
