import SwiftCodec.Files.Inquiry
import SwiftCodec.Files.Path
import SwiftCodec.Files.Pattern

/-!
Finding the files that a pattern of paths stands for. Names without wildcards are looked up as
they are; for others the names in the directory are gone through in increasing order. What a `**`
finds in a directory comes before what it finds further down.
-/
namespace SwiftCodec

namespace Glob

open Pattern (Piece)

/-- A path with its last name, as met in a directory. -/
structure Candidate where
  path : String
  name : String
  isDirectory : Bool
deriving DecidableEq, Repr

/-- A directory that could not be read. -/
structure Unreadable where
  path : String
  error : FileError
deriving DecidableEq, Repr

abbrev Finding := Inquiry (Except Unreadable (List String))

def nothing : Finding := pure (.ok [])

/-- The paths of several findings, one after another, up to the first directory that cannot be
read. -/
def inOrder : List Finding → Finding
  | [] => nothing
  | f :: fs => do
    match ← f with
    | .error e => pure (.error e)
    | .ok found => return (← inOrder fs).map (found ++ ·)

/-- A path that stays where it starts. -/
def isHere (path : String) : Bool :=
  path.toList.head? = some '.' && (Path.names path).all Path.isIdle

/-- A name in a directory. Paths in the directory at hand are plain names. -/
def under (directory name : String) : String :=
  if isHere directory then name else Path.join directory name

/-- The entries of a directory in increasing order. -/
def candidates (directory : String) : Inquiry (Except Unreadable (List Candidate)) := do
  match ← Inquiry.names directory with
  | .error e => pure (.error ⟨directory, e⟩)
  | .ok names =>
    let found ← (names.mergeSort fun a b => a ≤ b).mapM fun name => do
      let path := under directory name
      return (⟨path, name, ← Inquiry.isDirectory path⟩ : Candidate)
    pure (.ok found)

/-- Whether a name that means a directory by itself is asked for by its dot. -/
def admits (ps : List Piece) (special : String) : Bool :=
  ps.head? = some (.char '.') && Pattern.fits ps special

/-- The directories `.` and `..` do not count among the names of a directory. -/
def isSpecial (name : String) : Bool := name = "." || name = ".."

def isThere (directory name : String) : Inquiry Bool := do
  if isSpecial name then Inquiry.isDirectory directory
  else return (← Inquiry.kind? (under directory name)).isSome

mutual
/-- The paths under a directory, if it is one, that follow patterns of names. `fuel` bounds the
steps down; `directoriesOnly` drops everything else at the end. -/
def search (directoriesOnly : Bool) : Nat → List (List Piece) → String → Finding
  | 0, _, _ => nothing
  | _ + 1, [], _ => nothing
  | fuel + 1, ps :: rest, directory =>
    match Pattern.literal? ps with
    | some cs => do
      let name := String.ofList cs
      let path := under directory name
      if ← isThere directory name then proceed directoriesOnly fuel rest path else nothing
    | none => do
      if ← Inquiry.isDirectory directory then
        match ← candidates directory with
        | .error e => pure (.error e)
        | .ok cs =>
          let special (name : String) : Finding :=
            if admits ps name then
              proceed directoriesOnly fuel rest (Path.join directory name)
            else nothing
          inOrder (special ".." :: special "." ::
            cs.map fun c => visit directoriesOnly fuel ps rest c)
      else nothing
termination_by structural fuel => fuel

/-- Goes on from a path that has been found. -/
def proceed (directoriesOnly : Bool) : Nat → List (List Piece) → String → Finding
  | 0, _, _ => nothing
  | fuel + 1, rest, path => do
    if rest.isEmpty then
      if directoriesOnly && ! (← Inquiry.isDirectory path) then nothing else pure (.ok [path])
    else search directoriesOnly fuel rest path
termination_by structural fuel => fuel

/-- The paths at or under an entry of a directory. -/
def visit (directoriesOnly : Bool) : Nat → List Piece → List (List Piece) → Candidate → Finding
  | 0, _, _, _ => nothing
  | fuel + 1, ps, rest, c =>
    if ps = [.anyNames] then
      let further := rest.dropWhile (· = [.anyNames])
      let here : Finding :=
        match further with
        | [] => pure (.ok (if c.isDirectory then [c.path] else []))
        | qs :: rest => accept directoriesOnly fuel qs rest c
      if c.isDirectory then inOrder [here, search directoriesOnly fuel (ps :: further) c.path]
      else here
    else accept directoriesOnly fuel ps rest c
termination_by structural fuel => fuel

/-- The paths at or under an entry whose name a pattern has to match. -/
def accept (directoriesOnly : Bool) : Nat → List Piece → List (List Piece) → Candidate → Finding
  | 0, _, _, _ => nothing
  | fuel + 1, ps, rest, c =>
    if Pattern.fits ps c.name then
      if rest.isEmpty then
        pure (.ok (if ! directoriesOnly || c.isDirectory then [c.path] else []))
      else search directoriesOnly fuel rest c.path
    else nothing
termination_by structural fuel => fuel
end

/-- Enough for every path that is not too long: each step down adds to it. -/
def depth (pattern : String) : Nat := 3 * (4096 + pattern.length)

/-- The names of a pattern, without the empty one behind a slash at its end. -/
def nameTexts (pattern : String) : List String :=
  let texts := Path.names pattern
  if texts.getLast? = some "" then texts.dropLast else texts

/-- The paths that a pattern stands for. -/
def paths (pattern : String) : Except PatternError Finding := do
  let _ ← Pattern.parse pattern
  let names ← (nameTexts pattern).mapM Pattern.parse
  let start := if Path.isAbsolute pattern then "/" else "."
  let directoriesOnly := pattern.toList.getLast? = some '/'
  .ok (search directoriesOnly (depth pattern) names start)

end Glob

end SwiftCodec
