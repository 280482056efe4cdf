import SwiftCodec.Files.Inquiry
import SwiftCodec.Files.Path

/-!
Making a directory together with those it lies under, from single steps.
-/
namespace SwiftCodec

/-- A place where directories can be made one at a time. -/
structure DirectoryMaker (m : Type → Type) where
  /-- Makes a directory under one that exists, or says why not. -/
  make : String → m (Option FileError)
  isDirectory : String → m Bool

namespace DirectoryMaker

variable {m : Type → Type} [Monad m]

/-- An error in making a directory does not count if the directory is there. -/
def refusal? (d : DirectoryMaker m) (path : String) : m (Option FileError) := do
  match ← d.make path with
  | none => return none
  | some .exists => return if ← d.isDirectory path then none else some .exists
  | some e => return some e

/-- Makes directories, each under the one before it. -/
def makeEach (d : DirectoryMaker m) : List String → m (Option FileError)
  | [] => return none
  | path :: rest => do
    match ← d.refusal? path with
    | none => d.makeEach rest
    | some e => return some e

/-- Goes up from a path to the first directory that exists or can be made, and then makes the
directories left out on the way; `passed` holds those, the shortest path first. -/
def makeFrom (d : DirectoryMaker m) (passed : List String) : List String → m (Option FileError)
  | [] => d.makeEach passed
  | path :: above => do
    if path.isEmpty then d.makeEach passed
    else
      match ← d.refusal? path with
      | none => d.makeEach passed
      | some .notFound => d.makeFrom (path :: passed) above
      | some e => return some e

/-- Makes a directory and those it lies under. -/
def makeAll (d : DirectoryMaker m) (path : String) : m (Option FileError) :=
  d.makeFrom [] (Path.ancestors path)

end DirectoryMaker

end SwiftCodec
