import SwiftCodec.Json.Parser
import SwiftCodec.Json.Writer
import SwiftCodec.Text.Quoted

/-!
Why a document is not one of source files: what was found where something else was expected, and
the path to it.
-/
namespace SwiftCodec

/-- A value as messages name it. -/
def Json.describe : Json → String
  | .null => "null"
  | .bool b => "boolean `" ++ toString b ++ "`"
  | .number (.double x) => "floating point `" ++ x.write .document ++ "`"
  | .number n => "integer `" ++ n.text ++ "`"
  | .string s => "string " ++ Text.quoted s
  | .array _ => "sequence"
  | .object _ => "map"

/-- The kinds of records a document is made of, with their keys in the order in which the array
form lists them. -/
inductive Record where
  | sourceFile
  | typeExpr
  | field
  | struct
  | enum
  | typeAlias
  | extension
deriving DecidableEq, Repr

namespace Record

def name : Record → String
  | .sourceFile => "SourceFile"
  | .typeExpr => "Type"
  | .field => "VarDecl"
  | .struct => "Struct"
  | .enum => "Enum"
  | .typeAlias => "TypeAlias"
  | .extension => "Extension"

def keys : Record → List String
  | .sourceFile => ["filename", "declarations"]
  | .typeExpr => ["baseName", "alias", "genericArguments"]
  | .field => ["name", "type"]
  | .struct => ["baseName", "typeArguments", "varDecls", "nested"]
  | .enum => ["baseName", "rawTypeName", "nested"]
  | .typeAlias => ["name", "type"]
  | .extension => ["baseName", "functions"]

end Record

inductive Expectation where
  | string
  | sequence
  | record (r : Record)
  | declaration
  | kind
deriving DecidableEq, Repr

def Expectation.text : Expectation → String
  | .string => "a string"
  | .sequence => "a sequence"
  | .record r => "struct " ++ r.name
  | .declaration => "internally tagged enum Declaration"
  | .kind => "variant identifier"

inductive Cause where
  | mismatch (found : String) (expected : Expectation)
  /-- An array form that ends before a key without a default. -/
  | tooShort (count : Nat) (record : Record)
  /-- An array form with items left over. -/
  | tooLong (count : Nat)
  /-- The same inside a declaration, where the message has the number of items taken. -/
  | tooLongFor (count taken : Nat)
  | missing (key : String)
  | repeated (key : String)
  | unknownKind (text : String)
  | kindOutOfRange (n : Nat)
  | malformed (reason : Malformed)
deriving DecidableEq, Repr

def Cause.message : Cause → String
  | .mismatch found expected => "invalid type: " ++ found ++ ", expected " ++ expected.text
  | .tooShort count record =>
    "invalid length " ++ toString count ++ ", expected struct " ++ record.name ++ " with " ++
      toString record.keys.length ++ " elements"
  | .tooLong count => "invalid length " ++ toString count ++ ", expected fewer elements in array"
  | .tooLongFor count taken =>
    "invalid length " ++ toString count ++ ", expected " ++ toString taken ++
      " elements in sequence"
  | .missing key => "missing field `" ++ key ++ "`"
  | .repeated key => "duplicate field `" ++ key ++ "`"
  | .unknownKind text =>
    "unknown variant `" ++ text ++
      "`, expected one of `struct`, `enum`, `typealias`, `extension`"
  | .kindOutOfRange n =>
    "invalid value: integer `" ++ toString n ++ "`, expected variant index 0 <= i < 4"
  | .malformed reason => reason.message

/-- A path as messages write it: keys joined by dots, indexes in brackets, a dot when empty. -/
def PathStep.text : PathStep → String
  | .key name => name
  | .index i => "[" ++ toString i ++ "]"
  | .unread => "?"

def writeSteps : List PathStep → String
  | [] => ""
  | .index i :: rest => (PathStep.index i).text ++ writeSteps rest
  | step :: rest => "." ++ step.text ++ writeSteps rest

def writePath : List PathStep → String
  | [] => "."
  | step :: rest => step.text ++ writeSteps rest

/-- A failure to read a value. -/
structure Failure where
  path : List PathStep := []
  cause : Cause
deriving DecidableEq, Repr

namespace Failure

def under (step : PathStep) (f : Failure) : Failure := { f with path := step :: f.path }

def message (f : Failure) : String :=
  "at JSON path " ++ writePath f.path ++ " → " ++ f.cause.message

end Failure

/-- A failure to read a text, with the place where it was noticed. -/
structure TextFailure extends Failure where
  position : Position
deriving DecidableEq, Repr

namespace TextFailure

def ofFault (f : Fault) : TextFailure := ⟨⟨f.path, .malformed f.reason⟩, f.position⟩

def under (step : PathStep) (f : TextFailure) : TextFailure :=
  { f with path := step :: f.path }

def message (f : TextFailure) : String :=
  f.toFailure.message ++ " at line " ++ toString f.position.line ++ " column " ++
    toString f.position.column

end TextFailure

end SwiftCodec
