import Handheld.CommandLine.Path

/-!
# A directory held in memory

Files for running the program without a disk.  Paths are followed name by name from the directory or
from the root.  The directory has no folders in it, and of the folders above it nothing is known at
first but that they are there; a file can be made in any of them.

Every name of a path but the last has to lead to a folder: nothing can be below a file, nor below a
name that nothing has.  A name that is too long is refused when it is looked up in a folder.
-/

set_option autoImplicit false

namespace Handheld

/-- A folder that a path can lead to. -/
inductive Folder where
  /-- The directory itself. -/
  | here
  /-- The folder above it, or one as many levels further up. -/
  | above (levels : Nat)
  | root
  deriving DecidableEq

/-- The folder above a folder; the root is above itself. -/
def Folder.parent : Folder → Folder
  | here => above 0
  | above levels => above (levels + 1)
  | root => root

/-- Where a file is, or could be: a name in a folder. -/
structure Location where
  folder : Folder
  name : String
  deriving DecidableEq

/-- Files by where they are. -/
structure Directory where
  files : List (Location × ByteArray) := []

namespace Directory

/-- The contents of a file. -/
def get? (d : Directory) (l : Location) : Option ByteArray := d.files.lookup l

/-- The directory with a file put in or replaced. -/
def put (d : Directory) (l : Location) (bytes : ByteArray) : Directory :=
  ⟨(l, bytes) :: d.files.filter fun file ↦ file.1 ≠ l⟩

/-- The directory that holds some files. -/
def ofList (files : List (String × ByteArray)) : Directory :=
  files.foldl (fun d file ↦ d.put ⟨.here, file.1⟩ file.2) {}

/-- What a path leads to. -/
inductive Place where
  | folder (f : Folder)
  | file (l : Location)
  /-- Nothing is there. -/
  | vacant (l : Location)

/-- The folder at a place, if it is one. -/
def Place.folder? : Place → Except FileError Folder
  | folder f => .ok f
  | file _ => .error .notDirectory
  | vacant _ => .error .notFound

/-- The largest length in bytes of a name. -/
def nameLimit : Nat := 255

/-- Looks up a name in a folder.  One dot is the folder itself, two are the folder above it. -/
def look (d : Directory) (f : Folder) (name : String) : Except FileError Place :=
  if name = "." then .ok (.folder f)
  else if name = ".." then .ok (.folder f.parent)
  else if name.utf8ByteSize > nameLimit then .error .nameTooLong
  else if (d.get? ⟨f, name⟩).isSome then .ok (.file ⟨f, name⟩)
  else .ok (.vacant ⟨f, name⟩)

/-- Goes on from a folder to one that it holds. -/
def enter (d : Directory) (f : Folder) (name : String) : Except FileError Folder := do
  (← d.look f name).folder?

/-- Where a path starts. -/
def startOf (p : Path) : Folder := if p.fromRoot then .root else .here

/-- The folder in which the last name of a path is to be looked up. -/
def folderOf (d : Directory) (p : Path) : Except FileError Folder :=
  p.names.dropLast.foldlM d.enter (startOf p)

/-- What a path leads to. -/
def find (d : Directory) (p : Path) : Except FileError Place := do
  let f ← d.folderOf p
  match p.names.getLast? with
  | some name => d.look f name
  | none => return .folder f

/-- Reads a file.  A path with a slash at its end does not lead to one. -/
def read (d : Directory) (text : String) : Except FileError ByteArray := do
  let p ← Path.parse text
  match ← d.find p with
  | .folder _ => throw .isDirectory
  | .vacant _ => throw .notFound
  | .file l =>
    if p.slashAtEnd then throw .notDirectory
    return (d.get? l).getD ByteArray.empty

/-- Makes a file with nothing in it, in the place of any that is there: where it is, and the
directory with it.  A slash at the end of the path is refused before the last name is looked up, but
after the folder has been found. -/
def create (d : Directory) (text : String) : Except FileError (Location × Directory) := do
  let p ← Path.parse text
  let _ ← d.folderOf p
  if p.slashAtEnd then throw .isDirectory
  match ← d.find p with
  | .folder _ => throw .isDirectory
  | .file l | .vacant l => return (l, d.put l ByteArray.empty)

end Directory
end Handheld
