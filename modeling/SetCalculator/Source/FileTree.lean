import SetCalculator.Source.Files

/-!
# File trees

A file tree is a working directory held in memory: a table from places to files
and directories. Putting a file under a path makes the directories that the path
leads through, those included that it leaves again by `..`. Above the working
directory there are only other directories, and the root stands apart from all
of them.

Paths are followed name by name, as Linux does it. Each name is looked up in the
directory reached so far; `.` stays, `..` goes up, and empty names between
slashes do not count. A slash at the end asks for a directory, as a final `.`
would. So a path through a file is a fault even where the next name is `..`, and
a path through a missing directory is not found even where it comes back out of
it.
-/

namespace SetCalculator.Source

/-- What a place in a file tree holds. -/
inductive Node where
  | file (bytes : List UInt8)
  | directory

/-- The names that lead from the working directory to a place, last name first.
Names that lead up come before all others, and a place under the root starts
with a slash. -/
abbrev Place := List String

namespace Place

/-- The working directory. -/
def here : Place := []

/-- The root of the file system. -/
def root : Place := ["/"]

/-- Whether a place is the working directory, a directory above it, or the
root. -/
def isAround (place : Place) : Bool :=
  place == root || place.all (· == "..")

/-- The place above a place. The root is above itself. -/
def up (place : Place) : Place :=
  if place == root then root
  else if place.isAround then ".." :: place
  else place.tail

/-- The place that a name leads to. -/
def follow (place : Place) (name : String) : Place :=
  if name == "." then place
  else if name == ".." then place.up
  else name :: place

end Place

def pathNames (path : String) : List String :=
  let names := path.toList.splitOn '/'
  (names.filter fun name => !name.isEmpty).map String.ofList ++
    if names.getLast? == some [] then ["."] else []

/-- The place from which a path is followed. -/
def pathStart (path : String) : Place :=
  if isAbsolute path then .root else .here

/-- A working directory with what lies in it. -/
structure FileTree where
  entries : List (Place × Node)

namespace FileTree

def maxPathBytes : Nat := 4095

def maxNameBytes : Nat := 255

def empty : FileTree := ⟨[]⟩

/-- Puts a node where some names lead from a place, which is or becomes a
directory. -/
def insertFrom (tree : FileTree) (place : Place) (node : Node) :
    List String → FileTree
  | [] => ⟨(place, node) :: tree.entries⟩
  | name :: rest =>
      insertFrom ⟨(place, .directory) :: tree.entries⟩ (place.follow name) node
        rest

def insert (tree : FileTree) (path : String) (node : Node) : FileTree :=
  tree.insertFrom (pathStart path) node (pathNames path)

/-- The tree of some files and directories under their paths. -/
def ofList (nodes : List (String × Node)) : FileTree :=
  nodes.foldl (fun tree (path, node) => tree.insert path node) empty

/-- What lies at a place, if anything does. -/
def node? (tree : FileTree) (place : Place) : Option Node :=
  if place.isAround then some .directory else tree.entries.lookup place

inductive Spot where
  | directory (place : Place)
  | file (bytes : List UInt8)

/-- Goes on from a spot by one name of a path. -/
def enter (tree : FileTree) : Spot → String → Except OpenError Spot
  | .file _, _ => .error (.fault .notADirectory)
  | .directory place, name =>
      if name.utf8ByteSize > maxNameBytes then .error (.fault .nameTooLong)
      else match tree.node? (place.follow name) with
        | some (.file bytes) => .ok (.file bytes)
        | some .directory => .ok (.directory (place.follow name))
        | none => .error .notFound

/-- What can be read at a spot. A directory opens, but cannot be read. -/
def Spot.stream : Spot → Stream
  | .file bytes => ⟨bytes, none⟩
  | _ => ⟨[], some .isADirectory⟩

def disk (tree : FileTree) : Disk := fun path =>
  if path.toList.contains '\x00' then .error (.fault .nulInPath)
  else if path.utf8ByteSize > maxPathBytes then .error (.fault .nameTooLong)
  else if path.isEmpty then .error .notFound
  else
    ((pathNames path).foldlM tree.enter (.directory (pathStart path))).map
      Spot.stream

end FileTree

end SetCalculator.Source
