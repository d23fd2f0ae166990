import Handheld.CommandLine.Directory
import Handheld.CommandLine.Run

/-!
# A whole run on files in memory

`Transcript.ofOptions` does all that the options ask for with a `Directory` in place of a disk, and
answers everything that can be seen of it from outside: the lines printed, the error it ended with,
the files as they are left, and the journal.
-/

set_option autoImplicit false

namespace Handheld

/-- What can be seen of a run. -/
structure Transcript where
  lines : List String := []
  error : Option RunError := none
  files : Directory
  journal : Journal

namespace Transcript

/-- The transcript of a run that fails before anything is printed. -/
def failed (e : RunError) (files : Directory) (journal : Journal) : Transcript :=
  { error := some e, files, journal := journal.noteAll e.events }

/-- Makes the file for the frames, if one is asked for: where to write them. -/
def openDump (files : Directory) : Option String → Except RunError (Option Location × Directory)
  | none => .ok (none, files)
  | some path =>
    match files.create path with
    | .ok (location, files) => .ok (some location, files)
    | .error reason => .error (.uncreatable path reason)

/-- The files after the frames have been written. -/
def writeDump (files : Directory) (location : Option Location) (pictures : Option ByteArray) :
    Directory :=
  match location, pictures with
  | some location, some bytes => files.put location bytes
  | _, _ => files

/-- Runs a machine as the options say. -/
def ofMachine (o : Options) (m : Machine) (files : Directory) (journal : Journal) : Transcript :=
  match o.disassemble with
  | some count => { lines := listing m count, files, journal }
  | none =>
    match Run.start o m journal with
    | .error e => failed e files journal
    | .ok run =>
      match openDump files o.dump with
      | .error e => failed e files journal
      | .ok (location, files) =>
        let run := run.complete
        { lines := run.lines
          error := run.error.map .machine
          files := writeDump files location run.pictures
          journal := run.journal }

/-- Does what the options ask for. -/
def ofOptions (o : Options) (files : Directory) (journal : Journal) : Transcript :=
  match Id.run (Images.load (m := Id) (fun path ↦ files.read path) o).run with
  | .error e => failed e files journal
  | .ok images =>
    let journal := journal.noteAll images.events
    match images.machine with
    | .error e => failed e files journal
    | .ok m => ofMachine o m files journal

end Transcript
end Handheld
