/-!
Paths as text. A path is a sequence of names with slashes between them; a slash in front makes it
absolute. Empty names, and the name `.` except at the beginning, do not count.
-/
namespace SwiftCodec

namespace Path

def isAbsolute (path : String) : Bool := path.toList.head? = some '/'

/-- The names of a path, empty ones included; of an absolute one those behind its first slash. -/
def names (path : String) : List String :=
  let chars := if isAbsolute path then path.toList.drop 1 else path.toList
  (chars.splitOn '/').map String.ofList

/-- A file under a directory. An absolute path does not care for the directory. -/
def join (directory file : String) : String :=
  if isAbsolute file ∨ directory.isEmpty then file
  else if directory.toList.getLast? = some '/' then directory ++ file
  else directory ++ "/" ++ file

def isIdle (name : String) : Bool := name = "" || name = "."

/-- The names of a path from the last to the first, without idle ones at the end. -/
def trimmed (path : String) : List String :=
  let reversed := (names path).reverse
  match reversed.dropWhile isIdle with
  | [] => if ¬ isAbsolute path ∧ reversed.getLast? = some "." then ["."] else []
  | kept => kept

/-- The path without its last name, if it has one. -/
def parent? (path : String) : Option String :=
  match trimmed path with
  | [] => none
  | _ :: before =>
    let root := if isAbsolute path then "/" else ""
    let kept :=
      match before.dropWhile isIdle with
      | [] => if ¬ isAbsolute path ∧ before.getLast? = some "." then ["."] else []
      | kept => kept
    some (root ++ "/".intercalate kept.reverse)

/-- A path and the paths it lies under, from the longest on. `fuel` bounds their number. -/
def ancestorsWithin : Nat → String → List String
  | 0, path => [path]
  | fuel + 1, path =>
    match parent? path with
    | none => [path]
    | some above => path :: ancestorsWithin fuel above

def ancestors (path : String) : List String := ancestorsWithin path.length path

end Path

end SwiftCodec
