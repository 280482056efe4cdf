import SwiftCodec.Defect
import SwiftCodec.Document.Failure
import SwiftCodec.Files.Glob
import SwiftCodec.Filter.Run

/-!
Why a command stops. Every failure names the file it is about, if there is one.
-/
namespace SwiftCodec

namespace Command

inductive Failure where
  | badPattern (e : PatternError)
  | unreadableDirectory (e : Glob.Unreadable)
  | noMatch (pattern : String)
  | unreadable (path : String) (e : FileError)
  | notJson (path : String) (f : Fault)
  | filter (path : String) (f : FilterFailure)
  /-- A document that does not have the form of a source file. -/
  | textForm (path : String) (f : TextFailure)
  /-- The same for a value of a filter. -/
  | valueForm (path : String) (f : SwiftCodec.Failure)
  | invalid (path filename : String) (d : Defect)
  | directory (path : String) (e : FileError)
  | unwritable (path : String) (e : FileError)
  /-- Documents for which no file could be generated. -/
  | documents (failed count : Nat)
deriving Repr

def Failure.message : Failure → String
  | .badPattern e => "failed to resolve input file paths: " ++ e.message
  | .unreadableDirectory e =>
    "failed to resolve input file paths: attempting to read `" ++ e.path ++
      "` resulted in an error: " ++ e.error.message
  | .noMatch pattern =>
    "failed to resolve input file paths: glob pattern matched no files: " ++ pattern
  | .unreadable path e => "failed to read " ++ path ++ ": " ++ e.message
  | .notJson path f => "failed to parse JSON source file (" ++ path ++ "): " ++ f.message
  | .filter path f => "failed to apply jq expression to " ++ path ++ ": " ++ f.message
  | .textForm path f => path ++ ": " ++ f.message
  | .valueForm path f => path ++ ": " ++ f.message
  | .invalid path filename d =>
    path ++ ": invalid declarations in " ++ filename ++ ": " ++ d.message
  | .directory path e => "failed to create " ++ path ++ ": " ++ e.message
  | .unwritable path e => "failed to write " ++ path ++ ": " ++ e.message
  | .documents failed count =>
    toString failed ++ " of " ++ toString count ++ " document(s) failed"

end Command

end SwiftCodec
