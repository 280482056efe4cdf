import SwiftCodec.Command.Arguments
import SwiftCodec.Command.Failure
import SwiftCodec.Declaration.Validity
import SwiftCodec.Document.Text

/-!
Reading the documents of a command. Patterns are resolved before any file is read; files are read
in order, and the first thing wrong ends it all.
-/
namespace SwiftCodec

namespace Command

/-- A source file and the path of the file that its document is from. -/
structure Document where
  path : String
  file : SourceFile
deriving Repr

abbrev Loading (α : Type) := ExceptT Failure Inquiry α

/-- What a filter, given by its text, makes of a value. -/
abbrev Filtering := String → Json → Except FilterFailure (List Json)

def hasWildcard (path : String) : Bool := path.toList.any (· ∈ ['*', '?', '[', '\x7b'])

/-- The paths of a pattern, of which there must be one. Text without wildcards is a path, whether
it leads to a file or not. -/
def resolve (pattern : String) : Loading (List String) :=
  if ! hasWildcard pattern then pure [pattern]
  else
    match Glob.paths pattern with
    | .error e => throw (.badPattern e)
    | .ok finding => do
      match ← finding with
      | .error e => throw (.unreadableDirectory e)
      | .ok [] => throw (.noMatch pattern)
      | .ok paths => pure paths

/-- The source files in the text of a file. -/
def sourceFiles (filtering : Filtering) (filter : Option String) (path text : String) :
    Except Failure (List SourceFile) := do
  let files ←
    match filter with
    | none => do
      let file ← (SourceFile.ofText text).mapError (.textForm path)
      pure [file]
    | some filter => do
      let whole ← (Json.parse text).mapError (.notJson path)
      let values ← (filtering filter whole.unrepeated).mapError (.filter path)
      values.mapM fun v => (SourceFile.ofJson v).mapError (.valueForm path)
  files.forM fun file => file.validate.mapError (.invalid path file.filename)
  return files

/-- The documents of one file. -/
def loadFile (filtering : Filtering) (filter : Option String) (path : String) :
    Loading (List Document) := do
  match ← Inquiry.readText path with
  | .error e => throw (.unreadable path e)
  | .ok text =>
    match sourceFiles filtering filter path text with
    | .error f => throw f
    | .ok files => pure (files.map (⟨path, ·⟩))

def load (filtering : Filtering) (inputs : Inputs) : Loading (List Document) := do
  let paths ← inputs.patterns.mapM resolve
  let documents ← paths.flatten.mapM (loadFile filtering inputs.filter)
  return documents.flatten

end Command

end SwiftCodec
