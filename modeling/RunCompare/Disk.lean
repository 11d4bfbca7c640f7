/-
A model of the files that can be reached from a working directory.

A disk lists directories and files by the names that lead to them from the
working directory.  The directories above it exist as well: they are written
`..`, `../..` and so on, and their other contents count as unknown, so that
nothing is found in them but what was put there.  A path is followed part by
part, as written: each part but the last has to lead to a directory, `.` and
empty parts stay, and `..` goes up.  A path that starts at the root leads
nowhere here.
-/
import RunCompare.CommandLine.Run

namespace RunCompare

/-- Directories and files, by the names that lead to them from the working directory. -/
structure Disk where
  directories : List (List String)
  files : List (List String × ByteArray)

namespace Disk

/-- The disk that holds nothing. -/
def empty : Disk := ⟨[], []⟩

/-! ### Following paths -/

/-- Whether names lead to the working directory or to a directory above it. -/
def isAbove (names : List String) : Bool := names.all (· == "..")

/-- Whether names lead to a directory. -/
def isDirectory (disk : Disk) (names : List String) : Bool :=
  isAbove names || disk.directories.contains names

/-- Whether names lead to a file. -/
def isFile (disk : Disk) (names : List String) : Bool := (disk.files.lookup names).isSome

/-- Where a part of a path leads from a directory. -/
def step (here : List String) (part : String) : List String :=
  if part = "" ∨ part = "." then here
  else if part = ".." then
    if isAbove here then ".." :: here else here.dropLast
  else here ++ [part]

/-- A path has fewer bytes than this. -/
def pathLimit : Nat := 4096

/-- A name in a directory has at most this many bytes. -/
def nameLimit : Nat := 255

/-- The parts of a path that can be followed from the working directory. -/
def parts? (path : String) : Option (List String) :=
  let parts := (Path.parts path).map String.ofList
  if path.isEmpty || Path.isAbsolute path || path.toList.contains '\x00' then none
  else if path.utf8ByteSize < pathLimit && parts.all (·.utf8ByteSize ≤ nameLimit) then some parts
  else none

/-- The names to which parts lead from a directory; whatever a part is looked up in has to be a
directory. -/
def follow (disk : Disk) (here : List String) : List String → Option (List String)
  | [] => some here
  | part :: rest => if disk.isDirectory here then disk.follow (step here part) rest else none

/-- The names to which a path leads. -/
def resolve (disk : Disk) (path : String) : Option (List String) :=
  (parts? path).bind (disk.follow [])

/-! ### Reading and writing -/

/-- The content of a file. -/
def read (disk : Disk) (path : String) : Option ByteArray := do
  disk.files.lookup (← disk.resolve path)

/-- The disk with another content of a file, which may be a new one in an existing directory. -/
def write (disk : Disk) (path : String) (content : ByteArray) : Option Disk := do
  let names ← disk.resolve path
  if disk.isDirectory names then none
  else return { disk with files := (names, content) :: disk.files.filter (·.1 != names) }

/-- The disk with the directories to which parts lead, one after the other, those missing being
made; a file on the way ends it. -/
def makeDirectories (disk : Disk) (here : List String) : List String → Disk
  | [] => disk
  | part :: rest =>
    let next := step here part
    if disk.isDirectory next then disk.makeDirectories next rest
    else if disk.isFile next then disk
    else { disk with directories := next :: disk.directories }.makeDirectories next rest

/-- The disk with another file, in directories that are made if they are missing. -/
def place (disk : Disk) (path : String) (content : ByteArray) : Option Disk := do
  let parts ← parts? path
  (disk.makeDirectories [] parts.dropLast).write path content

/-- The disk that results from placing files in order. -/
def ofFiles (files : List (String × ByteArray)) : Option Disk :=
  files.foldlM (fun disk file => disk.place file.1 file.2) empty

/-- Reaching the files of a disk at a given time. -/
def access (time : String) : CommandLine.Access (StateM Disk) where
  read path := do return (← get).read path
  write path content := do
    match (← get).write path content.toUTF8 with
    | some disk => set disk; return true
    | none => return false
  now := pure time

end Disk

end RunCompare
