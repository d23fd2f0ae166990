import Handheld.CommandLine.Address

/-!
# The options of the command line

The words of a command line are read from left to right.  A word is an option with two dashes and
perhaps a value after an equals sign, a group of one-letter options, the mark after which no more
options come, or a plain word.  A plain word is the value of the option before it, if that still
waits for one, and otherwise the name of the cartridge file.

A value that stands as a word of its own is looked at late: when the next option or plain word that
is accepted comes, or at the end.  Of two mistakes the later one is then the one complained about if
it is a word that cannot be placed at all (`Reader.settle` is what the reader does first in all other
cases).  A value after an equals sign is looked at at once.
-/

set_option autoImplicit false

namespace Handheld

/-- What the command line asks for. -/
structure Options where
  /-- The file with the cartridge. -/
  rom : Option String := none
  /-- The file with the boot ROM. -/
  bootRom : String := "dmg_boot.bin"
  /-- Start without the boot ROM. -/
  skipBoot : Bool := false
  /-- The number of frames to run. -/
  frames : Nat := 60
  /-- The file to write the frames to. -/
  dump : Option String := none
  /-- Keep pace with the wall clock. -/
  realtime : Bool := false
  /-- The longest slice of a tick, in milliseconds. -/
  maxSliceMs : Nat := 500
  /-- The addresses at which to stop. -/
  breakpoints : List UInt16 := []
  /-- The number of instructions to list instead of running. -/
  disassemble : Option Nat := none
  deriving DecidableEq

/-- Why the command line is not acted on. -/
inductive UsageError where
  | unknownArgument
  | invalidValue
  | valueValidation
  | argumentConflict
  | tooManyValues
  | displayHelp
  | displayVersion
  deriving DecidableEq

/-- The kind of a usage error by name. -/
def UsageError.name : UsageError → String
  | unknownArgument => "UnknownArgument"
  | invalidValue => "InvalidValue"
  | valueValidation => "ValueValidation"
  | argumentConflict => "ArgumentConflict"
  | tooManyValues => "TooManyValues"
  | displayHelp => "DisplayHelp"
  | displayVersion => "DisplayVersion"

namespace CommandLine

/-- What a value can be given for. -/
inductive Setting where
  | rom
  | bootRom
  | frames
  | dump
  | maxSliceMs
  | breakpoint
  | disassemble
  deriving DecidableEq

/-- An option without a value. -/
inductive Switch where
  | skipBoot
  | realtime
  | help
  | version
  deriving DecidableEq

/-- An option with a long name. -/
inductive LongOption where
  | setting (s : Setting)
  | switch (s : Switch)
  deriving DecidableEq

/-- The option with a long name. -/
def LongOption.ofName? : String → Option LongOption
  | "boot-rom" => some (.setting .bootRom)
  | "skip-boot" => some (.switch .skipBoot)
  | "frames" => some (.setting .frames)
  | "dump" => some (.setting .dump)
  | "realtime" => some (.switch .realtime)
  | "max-slice-ms" => some (.setting .maxSliceMs)
  | "break" => some (.setting .breakpoint)
  | "disassemble" => some (.setting .disassemble)
  | "help" => some (.switch .help)
  | "version" => some (.switch .version)
  | _ => none

/-- A word of the command line by its form. -/
inductive Word where
  /-- The mark after which all words are plain. -/
  | endOfOptions
  /-- Two dashes, a name, and perhaps a value after an equals sign. -/
  | long (name : String) (value : Option String)
  /-- One dash and letters. -/
  | short (letters : List Char)
  | plain (text : String)

/-- The form of a word.  A single dash is plain. -/
def Word.ofString (text : String) : Word :=
  match text.toList with
  | ['-', '-'] => .endOfOptions
  | '-' :: '-' :: cs =>
    let name := String.ofList (cs.takeWhile (· ≠ '='))
    match cs.dropWhile (· ≠ '=') with
    | [] => .long name none
    | _ :: value => .long name (some (String.ofList value))
  | '-' :: c :: cs => .short (c :: cs)
  | _ => .plain text

/-- The name of a file, which must not be empty. -/
def readPath (text : String) : Except UsageError String :=
  if text = "" then .error .invalidValue else .ok text

/-- A decimal number up to a limit. -/
def readCount (limit : Nat) (text : List Char) : Except UsageError Nat :=
  (Numeral.parse 10 limit text).mapError fun _ ↦ .valueValidation

/-- The largest number that fits 64 bits. -/
def largestCount : Nat := UInt64.size - 1

/-- The length of a slice: a decimal number that fits 32 bits, where zero may have a minus sign. -/
def readSlice : List Char → Except UsageError Nat
  | '-' :: c :: cs =>
    if c = '+' then .error .valueValidation
    else readCount 0 (c :: cs)
  | text => readCount (UInt32.size - 1) text

/-- The options with a setting given a value. -/
def Setting.assign (o : Options) (text : String) : Setting → Except UsageError Options
  | rom => (readPath text).map fun path ↦ { o with rom := some path }
  | bootRom => (readPath text).map fun path ↦ { o with bootRom := path }
  | frames => (readCount largestCount text.toList).map fun n ↦ { o with frames := n }
  | dump => (readPath text).map fun path ↦ { o with dump := some path }
  | maxSliceMs => (readSlice text.toList).map fun n ↦ { o with maxSliceMs := n }
  | breakpoint =>
    match Address.parse text with
    | .ok a => .ok { o with breakpoints := o.breakpoints ++ [a] }
    | .error _ => .error .valueValidation
  | disassemble =>
    (readCount largestCount text.toList).map fun n ↦ { o with disassemble := some n }

/-- A setting whose value has not been looked at. -/
inductive Pending where
  | none
  /-- The value has yet to come. -/
  | awaiting (s : Setting)
  | given (s : Setting) (text : String)

/-- How far the command line has been read. -/
structure Reader where
  options : Options := {}
  /-- The options seen so far. -/
  seen : List LongOption := []
  pending : Pending := .none
  /-- The cartridge file has been named. -/
  romNamed : Bool := false
  /-- The mark has come, so only plain words follow. -/
  onlyPlain : Bool := false

namespace Reader

/-- Notes that an option has been given; only breakpoints may be given more than once. -/
def see (r : Reader) (o : LongOption) : Except UsageError Reader :=
  if r.seen.contains o ∧ o ≠ .setting .breakpoint then .error .argumentConflict
  else .ok { r with seen := o :: r.seen }

/-- Gives a setting its value. -/
def assign (r : Reader) (s : Setting) (text : String) : Except UsageError Reader := do
  let r ← r.see (.setting s)
  return { r with options := ← s.assign r.options text }

/-- Looks at the value that is pending. -/
def settle (r : Reader) : Except UsageError Reader :=
  match r.pending with
  | .none => .ok r
  | .awaiting _ => .error .invalidValue
  | .given s text => { r with pending := .none }.assign s text

/-- Reads an option without a value. -/
def readSwitch (r : Reader) (s : Switch) : Except UsageError Reader := do
  let r ← r.settle
  match s with
  | .help => throw .displayHelp
  | .version => throw .displayVersion
  | .skipBoot =>
    let r ← r.see (.switch s)
    return { r with options := { r.options with skipBoot := true } }
  | .realtime =>
    let r ← r.see (.switch s)
    return { r with options := { r.options with realtime := true } }

/-- Reads an option with a long name. -/
def readLong (r : Reader) (name : String) (value : Option String) : Except UsageError Reader :=
  match LongOption.ofName? name, value with
  | none, _ => .error .unknownArgument
  | some (.switch _), some _ => .error .tooManyValues
  | some (.switch s), none => r.readSwitch s
  | some (.setting s), some text => do (← r.settle).assign s text
  | some (.setting s), none => do return { ← r.settle with pending := .awaiting s }

/-- Reads a group of one-letter options.  Both of them end the reading, so only the first letter
counts. -/
def readShort (r : Reader) : List Char → Except UsageError Reader
  | 'h' :: _ => r.readSwitch .help
  | 'V' :: _ => r.readSwitch .version
  | _ => .error .unknownArgument

/-- Reads the name of the cartridge file.  There is room for one. -/
def readName (r : Reader) (text : String) : Except UsageError Reader :=
  if r.romNamed then .error .unknownArgument
  else do return { ← r.settle with pending := .given .rom text, romNamed := true }

/-- Reads a plain word. -/
def readPlain (r : Reader) (text : String) : Except UsageError Reader :=
  match r.pending with
  | .awaiting s => .ok { r with pending := .given s text }
  | _ => r.readName text

/-- Reads a word. -/
def readWord (r : Reader) (text : String) : Except UsageError Reader :=
  if r.onlyPlain then r.readName text
  else
    match Word.ofString text with
    | .endOfOptions => .ok { r with onlyPlain := true }
    | .long name value => r.readLong name value
    | .short letters => r.readShort letters
    | .plain text => r.readPlain text

end Reader

/-- Reads the words of a command line, the name of the program left out. -/
def parse (words : List String) : Except UsageError Options := do
  let r ← words.foldlM Reader.readWord {}
  return (← r.settle).options

end CommandLine
end Handheld
