/-!
Questions about files. An inquiry asks for what it needs to know, step by step, and ends in a
result; it changes nothing. What answers it may be the files of a machine or a tree of files held
as a value.
-/
namespace SwiftCodec

/-- Why a file cannot be read or written. -/
inductive FileError where
  | notFound
  | exists
  | notDirectory
  | isDirectory
  | nameTooLong
  /-- The path has a character with code zero. -/
  | nulInPath
  /-- The contents are not text in UTF-8. -/
  | notText
  | other (message : String)
deriving DecidableEq, Repr

def FileError.message : FileError → String
  | .notFound => "No such file or directory (os error 2)"
  | .exists => "File exists (os error 17)"
  | .notDirectory => "Not a directory (os error 20)"
  | .isDirectory => "Is a directory (os error 21)"
  | .nameTooLong => "File name too long (os error 36)"
  | .nulInPath => "file name contained an unexpected NUL byte"
  | .notText => "stream did not contain valid UTF-8"
  | .other message => message

inductive FileKind where
  | directory
  | file
deriving DecidableEq, Repr

inductive Inquiry (α : Type) where
  | done (a : α)
  /-- The text of a file. -/
  | read (path : String) (next : Except FileError String → Inquiry α)
  /-- What a path leads to, if anything. -/
  | kind (path : String) (next : Option FileKind → Inquiry α)
  /-- The names in a directory. -/
  | list (path : String) (next : Except FileError (List String) → Inquiry α)

namespace Inquiry

def bind {α β : Type} (q : Inquiry α) (f : α → Inquiry β) : Inquiry β :=
  match q with
  | .done a => f a
  | .read path next => .read path fun r => (next r).bind f
  | .kind path next => .kind path fun r => (next r).bind f
  | .list path next => .list path fun r => (next r).bind f

instance : Monad Inquiry where
  pure := .done
  bind := bind

def readText (path : String) : Inquiry (Except FileError String) := .read path .done
def kind? (path : String) : Inquiry (Option FileKind) := .kind path .done
def names (path : String) : Inquiry (Except FileError (List String)) := .list path .done

def isDirectory (path : String) : Inquiry Bool := do return (← kind? path) = some .directory

end Inquiry

end SwiftCodec
