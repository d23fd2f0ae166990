import Handheld.Proofs.Bus.Registers
import Handheld.Proofs.Cpu.Listed

/-!
# The words of a listing

A line is the name of an operation, and behind a blank its operands with commas between them.  This
file says which names and which operands there are (`Mnemonic`, `Operand`), how they are written,
and how they are read: `Mnemonic.read`, `Operand.read` and `Listing.parse` see nothing but the
characters.

Each kind of operand can be told from the others by how it is written.  An address has four digits
behind its dollar sign and a byte two, and what is neither that nor a number is one of a few names.
The one text that stands for two things is `C`, the register and the condition; it is one operand
here, and which of the two it is depends on the operation.

No name and no operand holds a blank or a comma (`Operand.separators_notMem_text`), so a line falls
into the words it was put together from: `Listing.parse_line`.
-/

set_option autoImplicit false

namespace Handheld

/-! ## Digits -/

namespace Hex

theorem notMem_digits {c : Char} (h : ∀ d < 16, digit d ≠ c) (width n : Nat) :
    c ∉ digits width n := by
  induction width generalizing n with
  | zero => exact List.not_mem_nil
  | succ width ih =>
    rw [digits, List.mem_append, List.mem_singleton, not_or]
    exact ⟨ih _, (h _ (Nat.mod_lt n (by decide))).symm⟩

end Hex

/-! ## Names -/

/-- What a line begins with: an operation, or that the line is data. -/
inductive Mnemonic where
  | db
  | nop
  | stop
  | halt
  | di
  | ei
  | ld
  | ldh
  | push
  | pop
  | inc
  | dec
  | alu (op : AluOp)
  | rotateA (rotation : Rotation)
  | daa
  | cpl
  | scf
  | ccf
  | jr
  | jp
  | call
  | ret
  | reti
  | rst
  | shift (op : ShiftOp)
  | bit
  | res
  | set
  deriving DecidableEq

namespace Mnemonic

def name : Mnemonic → String
  | db => "DB"
  | nop => "NOP"
  | stop => "STOP"
  | halt => "HALT"
  | di => "DI"
  | ei => "EI"
  | ld => "LD"
  | ldh => "LDH"
  | push => "PUSH"
  | pop => "POP"
  | inc => "INC"
  | dec => "DEC"
  | alu op => Listing.operation op.name
  | rotateA rotation => rotation.name ++ "A"
  | daa => "DAA"
  | cpl => "CPL"
  | scf => "SCF"
  | ccf => "CCF"
  | jr => "JR"
  | jp => "JP"
  | call => "CALL"
  | ret => "RET"
  | reti => "RETI"
  | rst => "RST"
  | shift op => op.name
  | bit => "BIT"
  | res => "RES"
  | set => "SET"

/-- All of them. -/
def all : List Mnemonic :=
  [db, nop, stop, halt, di, ei, ld, ldh, push, pop, inc, dec, daa, cpl, scf, ccf, jr, jp, call, ret,
    reti, rst, bit, res, set] ++
  (List.range 8).map (fun n ↦ alu (.ofField n)) ++
  (List.range 4).map (fun n ↦ rotateA (.ofField n)) ++
  (List.range 8).map (fun n ↦ shift (.ofField n))

theorem mem_all (m : Mnemonic) : m ∈ all := by
  cases m with
  | alu op => cases op <;> decide
  | rotateA rotation => cases rotation <;> decide
  | shift op =>
    cases op with
    | rotate rotation => cases rotation <;> decide
    | _ => decide
  | _ => decide

/-- The operation that has a name. -/
def read (name : List Char) : Option Mnemonic := all.find? (·.name.toList = name)

theorem read_name (m : Mnemonic) : read m.name.toList = some m :=
  (by decide +kernel : ∀ m ∈ all, read m.name.toList = some m) m m.mem_all

theorem blank_notMem_name (m : Mnemonic) : ' ' ∉ m.name.toList :=
  (by decide +kernel : ∀ m ∈ all, ' ' ∉ m.name.toList) m m.mem_all

end Mnemonic

/-! ## Operands -/

/-- An operand as it is written. -/
inductive Operand where
  | byte (operand : ByteOperand)
  | word (operand : WordOperand)
  | af
  | pointer (pointer : Pointer)
  /-- The I/O register that C is the number of. -/
  | atC
  | notZero
  | zero
  | notCarry
  /-- One of the eight addresses that have a call of their own. -/
  | slot (n : Fin 8)
  /-- A byte in hexadecimal. -/
  | value (v : UInt8)
  | address (a : UInt16)
  /-- The byte at an address. -/
  | byteAt (a : UInt16)
  /-- A signed number in decimal. -/
  | number (v : UInt8)
  /-- The stack pointer, moved by a signed number. -/
  | stackOffset (v : UInt8)
  deriving DecidableEq

namespace Operand

def text : Operand → String
  | byte operand => operand.name
  | word operand => operand.name
  | af => "AF"
  | pointer p => p.name
  | atC => "(C)"
  | notZero => "NZ"
  | zero => "Z"
  | notCarry => "NC"
  | slot n => Hex.byte (UInt8.ofNat (8 * n.val)) ++ "H"
  | value v => "$" ++ Hex.byte v
  | address a => "$" ++ Hex.word a
  | byteAt a => "($" ++ Hex.word a ++ ")"
  | number v => toString (Word.signed v)
  | stackOffset v => "SP" ++ (if Word.signed v < 0 then "" else "+") ++ toString (Word.signed v)

/-- The operands that have a name. -/
def named : List Operand :=
  (List.range 8).map (fun n ↦ byte (.ofField n)) ++
  (List.range 4).map (fun n ↦ word (.ofField n)) ++
  (List.range 4).map (fun n ↦ pointer (.ofField n)) ++
  (List.finRange 8).map slot ++ [af, atC, notZero, zero, notCarry]

/-- The number with a sign or none that is written in decimal, modulo 256. -/
def readNumber : List Char → UInt8
  | '-' :: digits => -readNumber digits
  | '+' :: digits => readNumber digits
  | digits => digits.foldl (fun n c ↦ 10 * n + UInt8.ofNat (Hex.digitValue c)) 0

/-- A character of a number. -/
def isNumeral (c : Char) : Bool := c.isDigit || c == '-'

/-- The operand that a text is. -/
def read : List Char → Option Operand
  | ['$', x, y] => some (value (UInt8.ofNat (Hex.value [x, y])))
  | '$' :: digits => some (address (UInt16.ofNat (Hex.value digits)))
  | '(' :: '$' :: rest => some (byteAt (UInt16.ofNat (Hex.value rest.dropLast)))
  | 'S' :: 'P' :: sign :: digits => some (stackOffset (readNumber (sign :: digits)))
  | text =>
    if text.all isNumeral then some (number (readNumber text))
    else named.find? (·.text.toList = text)

/-! ### Numbers -/

/-- A number in decimal. -/
def numeral : Int → List Char
  | .ofNat n => Nat.toDigits 10 n
  | .negSucc n => '-' :: Nat.toDigits 10 (n + 1)

theorem text_number (v : UInt8) : (number v).text.toList = numeral (Word.signed v) := by
  rw [text]
  cases Word.signed v <;> simp [numeral, toString, Int.repr]

theorem numeral_ne_nil : ∀ v, numeral (Word.signed v) ≠ [] := by decide +kernel

theorem all_isNumeral_numeral : ∀ v, (numeral (Word.signed v)).all isNumeral = true := by
  decide +kernel

theorem readNumber_numeral : ∀ v, readNumber (numeral (Word.signed v)) = v := by decide +kernel

/-- What is written like a number is read as one. -/
theorem read_of_isNumeral {text : List Char} (h : text.all isNumeral = true) :
    read text = some (number (readNumber text)) := by
  have hmem := List.all_eq_true.1 h
  rw [read.eq_def]
  split
  · exact absurd (hmem '$' List.mem_cons_self) (by decide)
  · exact absurd (hmem '$' List.mem_cons_self) (by decide)
  · exact absurd (hmem '(' List.mem_cons_self) (by decide)
  · exact absurd (hmem 'S' List.mem_cons_self) (by decide)
  · exact if_pos h

/-- A displacement of the stack pointer has its sign written out. -/
theorem text_stackOffset (v : UInt8) : (stackOffset v).text.toList =
    'S' :: 'P' :: ((if Word.signed v < 0 then [] else ['+']) ++ numeral (Word.signed v)) := by
  rw [← text_number, text, text]
  split <;> simp

theorem read_stackOffset (v : UInt8) :
    read (stackOffset v).text.toList = some (stackOffset v) := by
  have hread := readNumber_numeral v
  rw [text_stackOffset]
  split
  · obtain ⟨sign, digits, hnumber⟩ := List.exists_cons_of_ne_nil (numeral_ne_nil v)
    rw [List.nil_append, hnumber, read, ← hnumber, hread]
  · rw [List.cons_append, List.nil_append, read, readNumber, hread]

/-! ### All operands -/

/-- A byte has two digits. -/
theorem read_value (v : UInt8) : read (value v).text.toList = some (value v) := by
  have htext : (value v).text.toList = '$' :: Hex.digits 2 v.toNat := by simp [text, Hex.byte]
  have hvalue : Hex.value (Hex.digits 2 v.toNat) = v.toNat := by
    rw [Hex.value_digits]
    exact Nat.mod_eq_of_lt v.toNat_lt
  rw [htext]
  simp only [Hex.digits, List.nil_append, List.cons_append] at hvalue ⊢
  rw [read, hvalue, UInt8.ofNat_toNat]

/-- A word has four digits, so it is not taken for a byte. -/
theorem read_address (a : UInt16) : read (address a).text.toList = some (address a) := by
  have htext : (address a).text.toList = '$' :: Hex.digits 4 a.toNat := by simp [text, Hex.word]
  have hvalue : Hex.value (Hex.digits 4 a.toNat) = a.toNat := by
    simpa [Hex.word] using Hex.value_word a
  rw [htext]
  simp only [Hex.digits, List.nil_append, List.cons_append] at hvalue ⊢
  rw [read, hvalue, UInt16.ofNat_toNat]
  simp

theorem read_byteAt (a : UInt16) : read (byteAt a).text.toList = some (byteAt a) := by
  have htext : (byteAt a).text.toList = '(' :: '$' :: (Hex.digits 4 a.toNat ++ [')']) := by
    simp [text, Hex.word]
  have hvalue : Hex.value (Hex.digits 4 a.toNat) = a.toNat := by
    simpa [Hex.word] using Hex.value_word a
  rw [htext, read, List.dropLast_concat, hvalue, UInt16.ofNat_toNat]

/-- **An operand is read as what it was written from.** -/
theorem read_text (o : Operand) : read o.text.toList = some o := by
  cases o with
  | byte operand => cases operand <;> rfl
  | word operand => cases operand <;> rfl
  | pointer p => cases p <;> rfl
  | slot n => exact (by decide +kernel : ∀ n, read (slot n).text.toList = some (slot n)) n
  | value v => exact read_value v
  | address a => exact read_address a
  | byteAt a => exact read_byteAt a
  | number v => rw [text_number, read_of_isNumeral (all_isNumeral_numeral v), readNumber_numeral]
  | stackOffset v => exact read_stackOffset v
  | af | atC | notZero | zero | notCarry => rfl

theorem separators_notMem_text (o : Operand) : ' ' ∉ o.text.toList ∧ ',' ∉ o.text.toList := by
  have hblank := Hex.notMem_digits (c := ' ') (by decide)
  have hcomma := Hex.notMem_digits (c := ',') (by decide)
  have hnumeral (v : UInt8) :
      ' ' ∉ numeral (Word.signed v) ∧ ',' ∉ numeral (Word.signed v) := by
    have hmem := List.all_eq_true.1 (all_isNumeral_numeral v)
    exact ⟨fun h ↦ absurd (hmem _ h) (by decide), fun h ↦ absurd (hmem _ h) (by decide)⟩
  cases o with
  | byte operand => cases operand <;> decide
  | word operand => cases operand <;> decide
  | pointer p => cases p <;> decide
  | slot n => revert n; decide +kernel
  | value v | address a | byteAt a => simp [text, Hex.byte, Hex.word, hblank, hcomma]
  | number v =>
    rw [text_number]
    exact hnumeral v
  | stackOffset v =>
    rw [text_stackOffset]
    split <;> simp [hnumeral]
  | af | atC | notZero | zero | notCarry => decide

end Operand

/-! ## Lines -/

namespace Listing

/-- A line with its operands: a blank in front of them and a comma between them. -/
def line (m : Mnemonic) : List Operand → List Char
  | [] => m.name.toList
  | operands =>
    [' '].intercalate [m.name.toList, [','].intercalate (operands.map (·.text.toList))]

/-- The operation and the operands of a line. -/
def parse (text : List Char) : Option (Mnemonic × List Operand) :=
  match text.splitOn ' ' with
  | [name] => do return (← Mnemonic.read name, [])
  | [name, operands] => do
    return (← Mnemonic.read name, ← (operands.splitOn ',').mapM Operand.read)
  | _ => none

theorem mapM_read (operands : List Operand) :
    (operands.map (·.text.toList)).mapM Operand.read = some operands := by
  induction operands with
  | nil => rfl
  | cons o operands ih => simp [Operand.read_text, ih]

theorem notMem_intercalate {c sep : Char} {texts : List (List Char)} (hsep : c ≠ sep)
    (h : ∀ text ∈ texts, c ∉ text) : c ∉ [sep].intercalate texts := by
  induction texts with
  | nil => exact List.not_mem_nil
  | cons text texts ih =>
    obtain ⟨htext, htexts⟩ := List.forall_mem_cons.1 h
    cases texts with
    | nil => simpa using htext
    | cons next texts =>
      rw [List.intercalate_cons_cons, List.mem_append, List.mem_append, List.mem_singleton, not_or,
        not_or]
      exact ⟨⟨htext, hsep⟩, ih htexts⟩

/-- **A line is read as what it was written from.** -/
theorem parse_line (m : Mnemonic) (operands : List Operand) :
    parse (line m operands) = some (m, operands) := by
  have hname := m.blank_notMem_name
  cases operands with
  | nil =>
    have hsplit : ([' '].intercalate [m.name.toList]).splitOn ' ' = [m.name.toList] :=
      List.splitOn_intercalate ' ' (by simpa using hname) (by simp)
    rw [List.intercalate_singleton] at hsplit
    rw [parse, line, hsplit]
    dsimp only
    rw [m.read_name]
    rfl
  | cons o operands =>
    have hcommas : ([','].intercalate ((o :: operands).map (·.text.toList))).splitOn ',' =
        (o :: operands).map (·.text.toList) :=
      List.splitOn_intercalate ',' (List.forall_mem_map.2 fun o _ ↦ o.separators_notMem_text.2)
        (by simp)
    have hblank : ' ' ∉ [','].intercalate ((o :: operands).map (·.text.toList)) :=
      notMem_intercalate (by decide) (List.forall_mem_map.2 fun o _ ↦ o.separators_notMem_text.1)
    have hsplit : (line m (o :: operands)).splitOn ' ' =
        [m.name.toList, [','].intercalate ((o :: operands).map (·.text.toList))] :=
      List.splitOn_intercalate ' ' (by simpa using ⟨hname, hblank⟩) (by simp)
    rw [parse, hsplit]
    dsimp only
    rw [hcommas, mapM_read, m.read_name]
    rfl

end Listing
end Handheld
