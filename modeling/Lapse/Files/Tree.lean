import Lapse.Failure
import Lapse.Store

/-!
# A tree of files

The tree maps locations to what is there: a directory, a file, or the table of a store.  A location
is the list of names that leads to it; the top has none and is always a directory.  A path is a text
that leads from a location to another one, by names, single dots that stay and double dots that go up.

Writing a file replaces the whole file at once, and either succeeds or leaves every file as it was.
Directories that it makes on the way stay even when it fails.
-/

namespace Lapse.Files

/-- The names that lead to a place in the tree. -/
abbrev Location := List String

/-- What is at a place in the tree. -/
inductive Entry where
  | directory
  | file (bytes : Bytes)
  | table (store : Store)
  deriving DecidableEq

/-- The places of the tree below its top: what is in a directory follows it, in the order of the
names. -/
abbrev Tree := OrderedMap Location Entry

namespace Tree

/-- What is at a location. -/
def entry? (t : Tree) (here : Location) : Option Entry :=
  if here.isEmpty then some .directory else t.get? here

/-- Whether a directory is at a location. -/
def isDirectory (t : Tree) (here : Location) : Bool := t.entry? here = some .directory

/-! ## Paths -/

/-- The pieces of a text between slashes. -/
def pieces : List Char → List (List Char)
  | [] => [[]]
  | c :: rest =>
    if c = '/' then [] :: pieces rest
    else
      match pieces rest with
      | [] => [[c]]
      | piece :: more => (c :: piece) :: more

/-- The parts of a path; those of an absolute path begin with an empty one. -/
def parts (path : String) : List String := (pieces path.toList).map String.ofList

/-- Where a path begins. -/
def start (cwd : Location) (path : String) : Location :=
  if path.toList.head? = some '/' then [] else cwd

/-- Whether a part of a path leads nowhere. -/
def stays (part : String) : Bool := part = "" || part = "."

/-- Where the parts of a path lead to, if they lead through directories to something. -/
def follow (t : Tree) : Location → List String → Option Location
  | here, [] => if (t.entry? here).isSome then some here else none
  | here, part :: rest =>
    if !t.isDirectory here then none
    else if stays part then follow t here rest
    else if part = ".." then follow t here.dropLast rest
    else follow t (here ++ [part]) rest

/-- What a path leads to; the empty path leads to nothing. -/
def find? (t : Tree) (cwd : Location) (path : String) : Option Entry :=
  if path.isEmpty then none else (t.follow (start cwd path) (parts path)).bind t.entry?

/-- The bytes of the file that a path leads to. -/
def read (t : Tree) (cwd : Location) (path : String) : Except Failure Bytes :=
  match t.find? cwd path with
  | some (.file bytes) => .ok bytes
  | _ => .error .files

/-! ## Changes -/

/-- How long a name may be, in bytes. -/
def maxNameLength : Nat := 255

/-- Whether something can have a name. -/
def canName (name : String) : Bool :=
  (Utf8.encode name).length ≤ maxNameLength && !name.toList.contains '\x00'

/-- Make the directories that the parts of a path name, until one cannot be made.  The answer is the
tree, and the location that was reached if all are there. -/
def makeAll : Tree → Location → List String → Tree × Option Location
  | t, here, [] => (t, some here)
  | t, here, part :: rest =>
    if stays part then makeAll t here rest
    else if part = ".." then makeAll t here.dropLast rest
    else
      let next := here ++ [part]
      match t.get? next with
      | some .directory => makeAll t next rest
      | some _ => (t, none)
      | none => if canName part then makeAll (t.insert next .directory) next rest else (t, none)

/-- Make directories, unless a part of the path can name nothing anywhere. -/
def makeParts (t : Tree) (here : Location) (parts : List String) : Tree × Option Location :=
  if parts.any fun part => part.toList.contains '\x00' then (t, none) else t.makeAll here parts

/-- The parts of a path that lead to the directory of what it names. -/
def parentParts (path : String) : List String :=
  (((parts path).reverse.dropWhile stays).drop 1).reverse

/-- Whether a path ends with a dot that stays; what is before the dot must then be there. -/
def endsInDot (path : String) : Bool := ((parts path).reverse.takeWhile stays).contains "."

/-- Make the directory of a path, and those that lead to it.  A path that ends in a dot names no new
directory, so that only those that lead to it are made. -/
def makeDirectory (t : Tree) (cwd : Location) (path : String) : Tree × Except Failure Unit :=
  if path.isEmpty then (t, .ok ())
  else if endsInDot path then
    let (t, _) := t.makeParts (start cwd path) (parentParts path)
    (t, if (t.follow (start cwd path) (parts path)).isSome then .ok () else .error .files)
  else
    match t.makeParts (start cwd path) (parts path) with
    | (t, some _) => (t, .ok ())
    | (t, none) => (t, .error .files)

/-- The name at the end of a path, if it ends with one. -/
def lastName? (path : String) : Option String :=
  ((parts path).getLast?).filter fun part => !stays part && part ≠ ".." && canName part

/-- Write the file of a path, and make the directories that lead to it. -/
def write (t : Tree) (cwd : Location) (path : String) (bytes : Bytes) :
    Tree × Except Failure Unit :=
  match t.makeParts (start cwd path) (parentParts path) with
  | (t, none) => (t, .error .files)
  | (t, some parent) =>
    match lastName? path with
    | none => (t, .error .files)
    | some name =>
      let place := parent ++ [name]
      if t.get? place = some .directory then (t, .error .files)
      else (t.insert place (.file bytes), .ok ())

end Tree

end Lapse.Files
