import Handheld.CommandLine.Run
import Handheld.Pacing.Clock

/-!
# The program

The outer layer: reads the command line and the files, lets the run advance, and prints what it
hands over.  Reports go to standard error, up to the level that the variable `HANDHELD_LOG` names.
-/

set_option autoImplicit false

namespace Handheld
namespace Program

/-- The text printed when help is asked for. -/
def usage : String :=
  "Headless emulator of a handheld console\n\n" ++
    "Usage: handheld [OPTIONS] [ROM]\n\n" ++
    "  [ROM]                   the cartridge image\n" ++
    "  --boot-rom <FILE>       the boot ROM [default: dmg_boot.bin]\n" ++
    "  --skip-boot             start in the state the boot ROM leaves\n" ++
    "  --frames <COUNT>        number of frames to run [default: 60]\n" ++
    "  --dump <FILE>           write every completed frame to this file as raw RGB24\n" ++
    "  --realtime              keep pace with the wall clock\n" ++
    "  --max-slice-ms <MS>     longest slice run at once [default: 500]\n" ++
    "  --break <ADDR>          stop at this address (hexadecimal, repeatable)\n" ++
    "  --disassemble <COUNT>   list instructions from the start address and exit\n" ++
    "  -h, --help              print this text\n" ++
    "  -V, --version           print the version"

/-- The version of the program. -/
def version : String := "handheld 0.1.0"

/-- Why the system refuses a file. -/
def fileError : IO.Error → FileError
  | .noFileOrDirectory .. => .notFound
  | .inappropriateType _ 20 _ => .notDirectory
  | .inappropriateType _ 21 _ => .isDirectory
  | e => .other (toString e)

/-- Reads a file of the disk. -/
def readFile (path : String) : IO (Except FileError ByteArray) := do
  try
    return .ok (← IO.FS.readBinFile path)
  catch e => return .error (fileError e)

/-- Makes a file on the disk. -/
def createFile (path : String) : IO (Except RunError IO.FS.Handle) := do
  try
    return .ok (← IO.FS.Handle.mk path .write)
  catch e => return .error (.uncreatable path (fileError e))

/-- Prints reports. -/
def printReports (lines : List String) : IO Unit := lines.forM fun line ↦ IO.eprintln line

/-- Prints what a run has handed over. -/
def printOutput (output : Run.Output) (file : Option IO.FS.Handle) : IO Unit := do
  output.lines.forM fun line ↦ IO.println line
  printReports output.reports
  match file with
  | some file => file.write output.pictures
  | none => return

/-- The length of the next tick, in milliseconds. -/
def nextDelta : Option Pacer → IO (Nat × Option Pacer)
  | none => return (1, none)
  | some pacer => do
    IO.sleep 1
    let (dt, pacer) := pacer.read (← IO.monoMsNow)
    return (dt, some pacer)

/-- Lets a run advance until it is over. -/
partial def drive (run : Run) (file : Option IO.FS.Handle) (pacer : Option Pacer) : IO Run := do
  let (output, run) := run.handOver
  printOutput output file
  if run.isOver then return run
  let (dt, pacer) ← nextDelta pacer
  drive (run.advance dt) file pacer

/-- Builds the machine and does what the options ask for. -/
def perform (o : Options) (journal : Journal) : ExceptT RunError IO Unit := do
  let images ← Images.load readFile o
  let journal := journal.noteAll images.events
  printReports journal.lines
  let m ← images.machine
  match o.disassemble with
  | some count => (listing m count).forM fun line ↦ IO.println line
  | none =>
    let run ← Run.start o m journal.clear
    let file ← o.dump.mapM fun path ↦ ExceptT.mk (createFile path)
    let pacer ← if o.realtime then pure (some (Pacer.mk (← IO.monoMsNow))) else pure none
    let run ← drive run file pacer
    match run.error with
    | some e => throw (.machine e)
    | none => printReports run.journal.lines

/-- Tells what has gone wrong. -/
def complain (e : RunError) (journal : Journal) : IO Unit := do
  printReports (journal.noteAll e.events).lines
  IO.eprintln ("Error: " ++ e.message)

/-- Runs the program on the words of a command line; the answer is its exit code. -/
def run (words : List String) (journal : Journal) : IO UInt32 := do
  match CommandLine.parse words with
  | .error .displayHelp =>
    IO.println usage
    return 0
  | .error .displayVersion =>
    IO.println version
    return 0
  | .error e =>
    IO.eprintln ("error: " ++ e.name)
    return 2
  | .ok options =>
    match ← (perform options journal).run with
    | .ok () => return 0
    | .error e =>
      complain e journal
      return 1

end Program
end Handheld

def main (words : List String) : IO UInt32 := do
  let level := (← IO.getEnv "HANDHELD_LOG").bind Handheld.Level.ofName?
  Handheld.Program.run words { threshold := level }
