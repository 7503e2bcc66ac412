import Questionnaire.Collection
import Questionnaire.Files.Basic

/-!
# Folders in memory

A folder that is kept in memory takes files as a file system does.  A path is followed name by
name: a dot stays, two dots go up, and any other name goes down into a directory that must be
there.  A file is written only into a directory that is there and not in place of a directory.
What lies outside the folder is kept apart: its places start with two dots or with a slash.
-/

namespace Questionnaire

/-- The names that lead from the folder to a file or a directory. -/
abbrev Location := List String

namespace Location

/-- Whether a place is the folder itself, or above it, or the top of all absolute paths. -/
def isTop (place : Location) : Bool := place.all (· == "..") || place == ["/"]

/-- Whether a place lies in the folder. -/
def isInside (place : Location) : Bool :=
  match place with
  | [] => true
  | name :: _ => name != ".." && name != "/"

/-- The place that the first name of a path is seen from. -/
def start (path : Path) : Location := if Path.isAbsolute path then ["/"] else []

/-- The place one name further, whether or not there is something. -/
def step (place : Location) (name : String) : Location :=
  if name = "." then place
  else if name = ".." then
    if place == ["/"] then place
    else if isTop place then place ++ [".."]
    else place.dropLast
  else place ++ [name]

end Location

/-- A folder: its directories and its files. -/
structure Folder where
  directories : List Location := []
  files : List (Location × String) := []
  deriving DecidableEq, Repr

namespace Folder

/-- Whether there is a directory at a place. -/
def hasDirectory (f : Folder) (place : Location) : Bool :=
  place.isTop || f.directories.contains place

/-- The text of the file at a place. -/
def file? (f : Folder) (place : Location) : Option String :=
  f.files.lookup place

/-- Whether a name can be that of a file; it has at most 255 bytes. -/
def isName (name : String) : Bool := name.utf8ByteSize ≤ 255

/-- Whether a text can be a path; it has fewer than 4096 bytes and no null character. -/
def isPath (path : Path) : Bool :=
  path.utf8ByteSize < 4096 && !path.toList.contains '\x00'

/-- The place that the names lead to; each but the last must lead to a directory. -/
def follow? (f : Folder) (place : Location) : List String → Option Location
  | [] => some place
  | name :: rest =>
    if f.hasDirectory place && isName name then follow? f (place.step name) rest else none

/-- The place of a file: a path that ends in a name and leads to no directory. -/
def fileAt? (f : Folder) (path : Path) : Option Location :=
  if !isPath path || Path.endsOpen path then none
  else
    match f.follow? (.start path) (Path.names path) with
    | some place => if f.hasDirectory place then none else some place
    | none => none

/-- The text of a file. -/
def read (f : Folder) (path : Path) : Option String :=
  (f.fileAt? path).bind f.file?

/-- The folder with a file written, and whether it could be. -/
def write (f : Folder) (path : Path) (text : String) : Bool × Folder :=
  match f.fileAt? path with
  | some place => (true, { f with files := f.files.filter (·.1 ≠ place) ++ [(place, text)] })
  | none => (false, f)

/-- The folder with a directory for each of the names, from the first on, and whether there could
be all of them. -/
def makeDirectories (f : Folder) (place : Location) : List String → Bool × Folder
  | [] => (true, f)
  | name :: rest =>
    let next := place.step name
    if !isName name || (f.file? next).isSome then (false, f)
    else if f.hasDirectory next then makeDirectories f next rest
    else makeDirectories { f with directories := f.directories ++ [next] } next rest

/-- The folder with the directory of a path, and whether it could be made.  A path that ends in a
dot makes the directories above the last one that it names; that one must be there. -/
def makeDirectory (f : Folder) (path : Path) : Bool × Folder :=
  let place := Location.start path
  let names := Path.names path
  if !isPath path then (false, f)
  else if names.getLast? = some "." then
    let above := (names.reverse.dropWhile (· == ".")).tail.reverse
    let made := f.makeDirectories place above
    (made.1 && (made.2.follow? place names).any made.2.hasDirectory, made.2)
  else f.makeDirectories place names

/-- The folder as a file store. -/
def store : FileStore (StateM Folder) where
  createDirectory path := fun f => f.makeDirectory path
  writeFile path text := fun f => f.write path text
  readFile path := fun f => (f.read path, f)

end Folder

end Questionnaire
