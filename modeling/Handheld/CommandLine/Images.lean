import Handheld.CommandLine.Path
import Handheld.CommandLine.Options
import Handheld.Report

/-!
# From options to a machine

The options name the files to build a machine from.  How a file is read is left open: `Images.load`
works in any monad that offers a way to do it, so it runs on a disk as well as on a directory held
in memory.  `RunError` is everything that can go wrong from there on.
-/

set_option autoImplicit false

namespace Handheld

/-- Why a run ends early. -/
inductive RunError where
  /-- A file cannot be read; `what` says what it should hold. -/
  | unreadable (what path : String) (reason : FileError)
  /-- The file for the frames cannot be made. -/
  | uncreatable (path : String) (reason : FileError)
  | tooManyBreakpoints (address : UInt16)
  | machine (error : MachineError)

namespace RunError

/-- The text of an error, each cause after a colon. -/
def message : RunError → String
  | unreadable what path reason => s!"failed to read {what} '" ++ path ++ "': " ++ reason.reason
  | uncreatable path reason => "failed to create dump file '" ++ path ++ "': " ++ reason.reason
  | tooManyBreakpoints address => s!"too many breakpoints, cannot add ${Hex.word address}"
  | machine error => error.message

/-- What an error reports besides its text. -/
def events : RunError → List Event
  | tooManyBreakpoints address => [.breakpointTableFull address]
  | _ => []

end RunError

/-- The contents of the files a machine is built from. -/
structure Images where
  boot : Option ByteArray
  rom : Option ByteArray

namespace Images

/-- Reads a file, if one is named. -/
def readNamed {m : Type → Type} [Monad m] (read : String → m (Except FileError ByteArray))
    (what : String) : Option String → ExceptT RunError m (Option ByteArray)
  | none => return none
  | some path => do
    match ← (read path : m _) with
    | .ok bytes => return some bytes
    | .error reason => throw (.unreadable what path reason)

/-- Reads the files that the options name, the boot ROM first. -/
def load {m : Type → Type} [Monad m] (read : String → m (Except FileError ByteArray))
    (o : Options) : ExceptT RunError m Images := do
  let boot ← readNamed read "boot ROM" (if o.skipBoot then none else some o.bootRom)
  let rom ← readNamed read "ROM" o.rom
  return { boot, rom }

/-- The machine built from the files. -/
def machine (images : Images) : Except RunError Machine :=
  (Machine.assemble images.boot images.rom).mapError RunError.machine

/-- What building the machine reports. -/
def events (images : Images) : List Event := Machine.assembleEvents images.rom

end Images
end Handheld
