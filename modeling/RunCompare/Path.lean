/-
Paths of files, as texts with slashes.

Paths are taken as written: nothing is looked up, and `..` is not resolved.
-/

namespace RunCompare.Path

/-- Whether a path starts at the root. -/
def isAbsolute (path : String) : Bool := path.toList.head? == some '/'

/-- The parts of a path between its slashes. -/
def parts (path : String) : List (List Char) := path.toList.splitOn '/'

/-- A list of parts without those at its end that lead nowhere: empty ones, and points.  The
first part of a path is kept: it stands for the root or for the starting point. -/
def dropIdle (parts : List (List Char)) : List (List Char) :=
  match parts with
  | [] => []
  | first :: rest =>
    let kept := (rest.reverse.dropWhile fun p => p.isEmpty || p == ['.']).reverse
    first :: kept

/-- The path of the directory in which a path lies; empty for a single name. -/
def directory (path : String) : String :=
  let above := dropIdle ((dropIdle (parts path)).dropLast)
  if above = [[]] then "/" else String.ofList (['/'].intercalate above)

/-- A path as seen from a directory. -/
def join (directory path : String) : String :=
  if isAbsolute path || directory.isEmpty then path
  else if directory.toList.getLast? == some '/' then directory ++ path
  else directory ++ "/" ++ path

end RunCompare.Path
