/-!
# Paths and file stores

A path is a text of names with slashes between them.  A path that starts with a slash is absolute.

A file store is the place where the files of a program are.  Its operations say whether they
succeed.
-/

namespace Questionnaire

/-! ## Paths -/

/-- A path of a file or a directory. -/
abbrev Path := String

namespace Path

/-- Whether a path is absolute. -/
def isAbsolute (p : Path) : Bool := p.front? == some '/'

/-- Whether another path can follow without a slash in between. -/
def endsOpen (p : Path) : Bool :=
  match p.toList.getLast? with
  | none => true
  | some c => c == '/'

/-- The path `right` seen from the directory `left`.  An absolute path is the same from
everywhere. -/
def join (left right : Path) : Path :=
  if isAbsolute right then right
  else if endsOpen left then left ++ right
  else left ++ "/" ++ right

/-- The names in a path. -/
def names (p : Path) : List String :=
  ((p.toList.splitOn '/').map String.ofList).filter (· ≠ "")

end Path

/-! ## Stores -/

/-- A place that takes files. -/
structure FileSink (m : Type → Type) where
  /-- Makes a directory, with those above it. -/
  createDirectory : Path → m Bool
  /-- Writes a file into a directory that there is. -/
  writeFile : Path → String → m Bool

/-- A place that also gives files back. -/
structure FileStore (m : Type → Type) extends FileSink m where
  /-- The text of a file. -/
  readFile : Path → m (Option String)

end Questionnaire
