/-!
# Paths

What can go wrong when a file is opened, and how a path is taken apart.  A path is a list of names
between slashes; several slashes count as one.  It starts at the root if a slash comes first, and a
slash at its end says that it should lead to a folder.

A path that cannot be a path at all, because it holds a zero character or is too long, is refused
here, before anything is looked up.  A *name* that is too long is not: it matters only where it is
looked up (`Handheld.CommandLine.Directory`).
-/

set_option autoImplicit false

namespace Handheld

/-- Why a file cannot be opened. -/
inductive FileError where
  | notFound
  | notDirectory
  | isDirectory
  | nameTooLong
  | zeroInName
  /-- Any other reason, in the words of the system. -/
  | other (reason : String)
  deriving DecidableEq

/-- The text of a reason, with the number that the system gives it. -/
def FileError.reason : FileError → String
  | notFound => "No such file or directory (os error 2)"
  | notDirectory => "Not a directory (os error 20)"
  | isDirectory => "Is a directory (os error 21)"
  | nameTooLong => "File name too long (os error 36)"
  | zeroInName => "file name contained an unexpected NUL byte"
  | other reason => reason

/-- A path, taken apart. -/
structure Path where
  /-- It starts at the root. -/
  fromRoot : Bool
  /-- The names between the slashes. -/
  names : List String
  /-- It ends with a slash. -/
  slashAtEnd : Bool
  deriving DecidableEq

namespace Path

/-- The number of bytes at which a path is too long. -/
def lengthLimit : Nat := 4096

/-- The pieces of a text between slashes, empty ones included; `piece` is the beginning of the
first, last character first. -/
def pieces (piece : List Char) : List Char → List String
  | [] => [String.ofList piece.reverse]
  | c :: cs =>
    if c = '/' then String.ofList piece.reverse :: pieces [] cs else pieces (c :: piece) cs

/-- A path without regard to whether it is one. -/
def split (text : List Char) : Path where
  fromRoot := text.head? = some '/'
  names := (pieces [] text).filter (· ≠ "")
  slashAtEnd := text.getLast? = some '/'

/-- Takes a path apart. -/
def parse (text : String) : Except FileError Path :=
  if text.toList.contains '\x00' then .error .zeroInName
  else if text = "" then .error .notFound
  else if text.utf8ByteSize ≥ lengthLimit then .error .nameTooLong
  else .ok (split text.toList)

end Path
end Handheld
