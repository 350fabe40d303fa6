import DesignMatrix.Config.Format

/-!
# Paths

A path names a file by the directories that lead to it. It is walked name by name: `.` stays where
the walk is, `..` goes back, and any other name leads on. `StorePath.names` keeps all of them, for
a walk looks at every one; `StorePath.steps` leaves out each `.`, and its last name is the name of
the file.
-/

namespace DesignMatrix

/-- Where a file or directory is: the names that lead to it, the last one first. -/
abbrev Place := List String

namespace Place

/-- The directory that holds all others. -/
def top : Place := []

/-- The directory where relative paths start. -/
def working : Place := [""]

/-- The bytes that a name may have. -/
def nameLimit : Nat := 255

/-- Where a name leads, `none` if nothing can have this name. -/
def step? (place : Place) (name : String) : Option Place :=
  if name = "." then some place
  else if name = ".." then some place.tail
  else if name.utf8ByteSize ≤ nameLimit then some (name :: place)
  else none

end Place

/-- A path as it is written. -/
structure StorePath where
  /-- The path starts at the top. -/
  isAbsolute : Bool
  /-- The names between the slashes. -/
  names : List String
  deriving DecidableEq, Repr

namespace StorePath

/-- The path that a text is. Where no name stands before or after a slash, `.` is meant: so a slash
at the end asks for a directory. -/
def ofText (text : String) : StorePath where
  isAbsolute := text.toList.head? = some '/'
  names := (text.splitOn "/").map fun name => if name = "" then "." else name

/-- Where the walk along a path starts. -/
def start (path : StorePath) : Place := if path.isAbsolute then Place.top else Place.working

/-- The names that lead from one place to another. -/
def steps (path : StorePath) : List String := path.names.filter (· ≠ ".")

/-- The name of the file, empty if there is none. -/
def fileName (path : StorePath) : String := path.steps.getLast?.getD ""

/-- The names of the directories that hold the file. -/
def parents (path : StorePath) : List String := path.steps.dropLast

/-- The path ends in a name that a file can have. -/
def endsInName (path : StorePath) : Bool :=
  match path.names.getLast? with
  | some name => name ≠ "." && name ≠ ".."
  | none => false

/-- The bytes that a path may have. -/
def lengthLimit : Nat := 4079

/-- Names can be walked at all: together they are not too long, and none holds the character zero. -/
def areWalkable (names : List String) : Bool :=
  (names.map (·.utf8ByteSize + 1)).foldr (· + ·) 0 ≤ lengthLimit + 1 &&
    names.all fun name => !name.toList.contains '\x00'

end StorePath

end DesignMatrix
