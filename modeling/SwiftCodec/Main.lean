import Std.Time.DateTime.Timestamp
import SwiftCodec.Command.Run

/-!
The program: requests answered from the files of the machine.
-/
namespace SwiftCodec

namespace Machine

/-- The number under which the machine knows an error, and what it says. -/
def numbered : IO.Error → UInt32 × String
  | .alreadyExists _ n text | .otherError n text | .resourceBusy n text
  | .resourceVanished n text | .unsupportedOperation n text | .hardwareFault n text
  | .unsatisfiedConstraints n text | .illegalOperation n text | .protocolError n text
  | .timeExpired n text | .interrupted _ n text | .noFileOrDirectory _ n text
  | .invalidArgument _ n text | .permissionDenied _ n text | .resourceExhausted _ n text
  | .inappropriateType _ n text | .noSuchThing _ n text => (n, text)
  | .unexpectedEof => (0, "end of file")
  | .userError text => (0, text)

/-- Some calls give the number with its sign changed. -/
def fileError (e : IO.Error) : FileError :=
  let (n, text) := numbered e
  match (if 2147483648 ≤ n then 0 - n else n), text with
  | 2, _ => .notFound
  | 17, _ => .exists
  | 20, _ => .notDirectory
  | 21, _ => .isDirectory
  | 36, _ => .nameTooLong
  | n, text => .other (text ++ " (os error " ++ toString n ++ ")")

/-- Reads bytes first, so that what is no text is told apart from what cannot be read. -/
def readText (path : String) : IO (Except FileError String) := do
  if ← (System.mkFilePath [path]).isDir then return .error .isDirectory
  try
    match String.fromUTF8? (← IO.FS.readBinFile path) with
    | some s => return .ok s
    | none => return .error .notText
  catch e => return .error (fileError e)

def kind? (path : String) : IO (Option FileKind) := do
  let path := System.mkFilePath [path]
  if ← path.isDir then return some .directory
  else if ← path.pathExists then return some .file
  else return none

def names (path : String) : IO (Except FileError (List String)) := do
  try
    let entries ← (System.mkFilePath [path]).readDir
    return .ok (entries.toList.map (·.fileName))
  catch e => return .error (fileError e)

/-- Asks the machine. -/
def ask : Inquiry α → IO α
  | .done a => pure a
  | .read path next => do ask (next (← readText path))
  | .kind path next => do ask (next (← kind? path))
  | .list path next => do ask (next (← names path))

def refusal? (action : IO Unit) : IO (Option FileError) := do
  try
    action
    return none
  catch e => return some (fileError e)

def maker : DirectoryMaker IO where
  make path := refusal? (IO.FS.createDir path)
  isDirectory path := (System.mkFilePath [path]).isDir

def store (path contents : String) : IO (Option Command.Failure) := do
  let above := (Path.parent? path).getD ""
  match ← if above.isEmpty then pure none else maker.makeAll above with
  | some e => return some (.directory above e)
  | none =>
    if path.contains '\x00' then return some (.unwritable path .nulInPath)
    else return (← refusal? (IO.FS.writeFile path contents)).map (.unwritable path)

def act : Command.Action → IO (Option Command.Failure)
  | .print text => do
    IO.print text
    return none
  | .report line => do
    IO.eprintln line
    return none
  | .write path contents => store path contents

def actAll : List Command.Action → IO (Option Command.Failure)
  | [] => return none
  | a :: rest => do
    match ← act a with
    | none => actAll rest
    | some f => return some f

def perform (s : Command.Script) : IO UInt32 := do
  match (← actAll s.actions).or s.failure with
  | none => return 0
  | some f =>
    IO.eprintln ("error: " ++ f.message)
    return 1

end Machine

end SwiftCodec

open SwiftCodec in
def main (args : List String) : IO UInt32 := do
  match Command.Request.ofArguments? args with
  | none =>
    IO.eprint Command.helpText
    return 2
  | some request =>
    let seconds := (← Std.Time.Timestamp.now).toSecondsSinceUnixEpoch.val
    let script ← Machine.ask (request.script Json.filtered ⟨seconds, 0⟩)
    Machine.perform script
