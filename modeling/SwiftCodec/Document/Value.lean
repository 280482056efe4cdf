import SwiftCodec.Declaration.Basic
import SwiftCodec.Document.Failure

/-!
Reading declarations from JSON values. A record is an object, whose unknown keys are ignored, or
an array of its fields in order. Members are looked at in the order written, so that the first
offence is the one reported; a key that is absent is noticed at the end.

A declaration is settled in two steps: its kind is found first, and the rest is then read as that
kind says. Failures of the second step carry no path of their own below the declaration.
-/
namespace SwiftCodec

/-- Where a value stands: in the open, or inside a declaration whose kind is already settled. The
two differ in how they report items left over and in that an inner kind may be an index. -/
inductive Standing where
  | outside
  | inside
deriving DecidableEq, Repr

namespace Document

abbrev Reading (α : Type) := Except Failure α

def fail (cause : Cause) : Reading α := .error ⟨[], cause⟩
def atKey (key : String) (r : Reading α) : Reading α := r.mapError (·.under (.key key))
def atIndex (i : Nat) (r : Reading α) : Reading α := r.mapError (·.under (.index i))

/-- Forgets the path. -/
def settled (r : Reading α) : Reading α := r.mapError fun f => { f with path := [] }

def mismatch (j : Json) (expected : Expectation) : Reading α :=
  fail (.mismatch j.describe expected)

/-- Items are left over behind the ones that `record` takes. -/
def leftOver (standing : Standing) (record : Record) (count : Nat) : Reading α :=
  match standing with
  | .outside => fail (.tooLong count)
  | .inside => fail (.tooLongFor count record.keys.length)

/-- The reading of a member, unless its key has come before. -/
def once (key : String) (seen : Option α) (r : Reading β) : Reading β :=
  if seen.isSome then fail (.repeated key) else atKey key r

def required (key : String) : Option α → Reading α
  | some a => .ok a
  | none => fail (.missing key)

def readString : Json → Reading String
  | .string s => .ok s
  | j => mismatch j .string

def readOptionalString : Json → Reading (Option String)
  | .null => .ok none
  | j => (readString j).map some

def readItems (read : Json → Reading α) (i : Nat) : List Json → Reading (List α)
  | [] => .ok []
  | j :: rest => do
    let a ← atIndex i (read j)
    let as ← readItems read (i + 1) rest
    .ok (a :: as)

def readSequence (read : Json → Reading α) : Json → Reading (List α)
  | .array items => readItems read 0 items
  | j => mismatch j .sequence

def readStrings : Json → Reading (List String) := readSequence readString

/-! ## Types -/

structure TypeDraft where
  base : Option String := none
  target : Option (Option String) := none
  args : Option (List TypeExpr) := none

def TypeDraft.finish (d : TypeDraft) : Reading TypeExpr := do
  let base ← required "baseName" d.base
  .ok ⟨base, d.target.getD none, d.args.getD []⟩

mutual
def readType (standing : Standing) : Json → Reading TypeExpr
  | .object members => readTypeMembers standing {} members
  | .array [] => fail (.tooShort 0 .typeExpr)
  | .array [base] => do
    let base ← atIndex 0 (readString base)
    .ok ⟨base, none, []⟩
  | .array [base, target] => do
    let base ← atIndex 0 (readString base)
    let target ← atIndex 1 (readOptionalString target)
    .ok ⟨base, target, []⟩
  | .array (base :: target :: args :: rest) => do
    let base ← atIndex 0 (readString base)
    let target ← atIndex 1 (readOptionalString target)
    let args ← atIndex 2 (readTypes standing args)
    if rest.isEmpty then .ok ⟨base, target, args⟩
    else leftOver standing .typeExpr (rest.length + 3)
  | j => mismatch j (.record .typeExpr)
termination_by structural j => j
def readTypes (standing : Standing) : Json → Reading (List TypeExpr)
  | .array items => readTypeItems standing 0 items
  | j => mismatch j .sequence
termination_by structural j => j
def readTypeItems (standing : Standing) (i : Nat) : List Json → Reading (List TypeExpr)
  | [] => .ok []
  | j :: rest => do
    let t ← atIndex i (readType standing j)
    let ts ← readTypeItems standing (i + 1) rest
    .ok (t :: ts)
termination_by structural js => js
def readTypeMembers (standing : Standing) (d : TypeDraft) :
    List (String × Json) → Reading TypeExpr
  | [] => d.finish
  | (key, j) :: rest =>
    if key = "baseName" then do
      let base ← once key d.base (readString j)
      readTypeMembers standing { d with base := some base } rest
    else if key = "alias" then do
      let target ← once key d.target (readOptionalString j)
      readTypeMembers standing { d with target := some target } rest
    else if key = "genericArguments" then do
      let args ← once key d.args (readTypes standing j)
      readTypeMembers standing { d with args := some args } rest
    else readTypeMembers standing d rest
termination_by structural ms => ms
end

/-! ## Fields, type aliases and extensions -/

/-- Reads the members of a record that pairs a name with a type, under the given keys. -/
def readNamedTypeMembers (standing : Standing) (name : Option String) (type : Option TypeExpr) :
    List (String × Json) → Reading (String × TypeExpr)
  | [] => do
    let name ← required "name" name
    let type ← required "type" type
    .ok (name, type)
  | (key, j) :: rest =>
    if key = "name" then do
      let name ← once key name (readString j)
      readNamedTypeMembers standing (some name) type rest
    else if key = "type" then do
      let type ← once key type (readType standing j)
      readNamedTypeMembers standing name (some type) rest
    else readNamedTypeMembers standing name type rest

def readNamedTypeItems (standing : Standing) (record : Record) :
    List Json → Reading (String × TypeExpr)
  | [] => fail (.tooShort 0 record)
  | [name] => do
    discard (atIndex 0 (readString name))
    fail (.tooShort 1 record)
  | name :: type :: rest => do
    let name ← atIndex 0 (readString name)
    let type ← atIndex 1 (readType standing type)
    if rest.isEmpty then .ok (name, type) else leftOver standing record (rest.length + 2)

def readField (standing : Standing) : Json → Reading Field
  | .object members => do
    let (name, type) ← readNamedTypeMembers standing none none members
    .ok ⟨name, type⟩
  | .array items => do
    let (name, type) ← readNamedTypeItems standing .field items
    .ok ⟨name, type⟩
  | j => mismatch j (.record .field)

def readFields (standing : Standing) : Json → Reading (List Field) :=
  readSequence (readField standing)

structure ExtensionDraft where
  name : Option String := none
  functions : Option (List String) := none

def readExtensionMembers (d : ExtensionDraft) : List (String × Json) → Reading ExtensionDecl
  | [] => do
    let name ← required "baseName" d.name
    .ok ⟨name, d.functions.getD []⟩
  | (key, j) :: rest =>
    if key = "baseName" then do
      let name ← once key d.name (readString j)
      readExtensionMembers { d with name := some name } rest
    else if key = "functions" then do
      let functions ← once key d.functions (readStrings j)
      readExtensionMembers { d with functions := some functions } rest
    else readExtensionMembers d rest

def readExtensionItems (standing : Standing) : List Json → Reading ExtensionDecl
  | [] => fail (.tooShort 0 .extension)
  | [name] => do
    let name ← atIndex 0 (readString name)
    .ok ⟨name, []⟩
  | name :: functions :: rest => do
    let name ← atIndex 0 (readString name)
    let functions ← atIndex 1 (readStrings functions)
    if rest.isEmpty then .ok ⟨name, functions⟩
    else leftOver standing .extension (rest.length + 2)

/-! ## Declarations -/

inductive Kind where
  | struct
  | enum
  | typeAlias
  | extension
deriving DecidableEq, Repr

namespace Kind

def all : List Kind := [.struct, .enum, .typeAlias, .extension]

def text : Kind → String
  | .struct => "struct"
  | .enum => "enum"
  | .typeAlias => "typealias"
  | .extension => "extension"

def ofText (text : String) : Reading Kind :=
  match all.find? (·.text = text) with
  | some k => .ok k
  | none => fail (.unknownKind text)

def ofIndex (n : Nat) : Reading Kind :=
  match all[n]? with
  | some k => .ok k
  | none => fail (.kindOutOfRange n)

end Kind

def readKind (standing : Standing) : Json → Reading Kind
  | .string s => Kind.ofText s
  | .number (.natural n) =>
    match standing with
    | .inside => Kind.ofIndex n
    | .outside => mismatch (.number (.natural n)) .kind
  | j => mismatch j .kind

/-- The kind among the members of a declaration. -/
def kindAmong (standing : Standing) (seen : Option Kind) : List (String × Json) → Reading Kind
  | [] => required "kind" seen
  | (key, j) :: rest =>
    if key = "kind" then do
      let kind ← once key seen (readKind standing j)
      kindAmong standing (some kind) rest
    else kindAmong standing seen rest

structure StructDraft where
  name : Option String := none
  parameters : Option (List String) := none
  fields : Option (List Field) := none
  nested : Option (List Declaration) := none

def StructDraft.finish (d : StructDraft) : Reading StructDecl := do
  let name ← required "baseName" d.name
  .ok ⟨name, d.parameters.getD [], d.fields.getD [], d.nested.getD []⟩

structure EnumDraft where
  name : Option String := none
  rawType : Option String := none
  nested : Option (List Declaration) := none

def EnumDraft.finish (d : EnumDraft) : Reading (EnumDecl × List Declaration) := do
  let name ← required "baseName" d.name
  let rawType ← required "rawTypeName" d.rawType
  .ok (⟨name, rawType⟩, d.nested.getD [])

def asEnum : EnumDecl × List Declaration → Declaration := fun (e, nested) => .enum e nested
def asAlias : String × TypeExpr → Declaration := fun (name, target) => .typeAlias ⟨name, target⟩

mutual
def readDeclaration (standing : Standing) : Json → Reading Declaration
  | .object members => do
    match ← kindAmong standing none members with
    | .struct => settled ((readStructMembers .inside {} members).map .struct)
    | .enum => settled ((readEnumMembers .inside {} members).map asEnum)
    | .typeAlias => settled ((readNamedTypeMembers .inside none none members).map asAlias)
    | .extension => settled ((readExtensionMembers {} members).map .extension)
  | .array [] => fail (.missing "kind")
  | .array (kind :: items) => do
    match ← atIndex 0 (readKind standing kind) with
    | .struct => settled ((readStructItems .inside items).map .struct)
    | .enum => settled ((readEnumItems .inside items).map asEnum)
    | .typeAlias => settled ((readNamedTypeItems .inside .typeAlias items).map asAlias)
    | .extension => settled ((readExtensionItems .inside items).map .extension)
  | j => mismatch j .declaration
termination_by structural j => j
def readDeclarations (standing : Standing) : Json → Reading (List Declaration)
  | .array items => readDeclarationItems standing 0 items
  | j => mismatch j .sequence
termination_by structural j => j
def readDeclarationItems (standing : Standing) (i : Nat) :
    List Json → Reading (List Declaration)
  | [] => .ok []
  | j :: rest => do
    let d ← atIndex i (readDeclaration standing j)
    let ds ← readDeclarationItems standing (i + 1) rest
    .ok (d :: ds)
termination_by structural js => js
def readStructMembers (standing : Standing) (d : StructDraft) :
    List (String × Json) → Reading StructDecl
  | [] => d.finish
  | (key, j) :: rest =>
    if key = "baseName" then do
      let name ← once key d.name (readString j)
      readStructMembers standing { d with name := some name } rest
    else if key = "typeArguments" then do
      let parameters ← once key d.parameters (readStrings j)
      readStructMembers standing { d with parameters := some parameters } rest
    else if key = "varDecls" then do
      let fields ← once key d.fields (readFields standing j)
      readStructMembers standing { d with fields := some fields } rest
    else if key = "nested" then do
      let nested ← once key d.nested (readDeclarations standing j)
      readStructMembers standing { d with nested := some nested } rest
    else readStructMembers standing d rest
termination_by structural ms => ms
def readStructItems (standing : Standing) : List Json → Reading StructDecl
  | [] => fail (.tooShort 0 .struct)
  | [name] => do
    let name ← atIndex 0 (readString name)
    .ok { name }
  | [name, parameters] => do
    let name ← atIndex 0 (readString name)
    let parameters ← atIndex 1 (readStrings parameters)
    .ok { name, parameters }
  | [name, parameters, fields] => do
    let name ← atIndex 0 (readString name)
    let parameters ← atIndex 1 (readStrings parameters)
    let fields ← atIndex 2 (readFields standing fields)
    .ok { name, parameters, fields }
  | name :: parameters :: fields :: nested :: rest => do
    let name ← atIndex 0 (readString name)
    let parameters ← atIndex 1 (readStrings parameters)
    let fields ← atIndex 2 (readFields standing fields)
    let nested ← atIndex 3 (readDeclarations standing nested)
    if rest.isEmpty then .ok ⟨name, parameters, fields, nested⟩
    else leftOver standing .struct (rest.length + 4)
termination_by structural js => js
def readEnumMembers (standing : Standing) (d : EnumDraft) :
    List (String × Json) → Reading (EnumDecl × List Declaration)
  | [] => d.finish
  | (key, j) :: rest =>
    if key = "baseName" then do
      let name ← once key d.name (readString j)
      readEnumMembers standing { d with name := some name } rest
    else if key = "rawTypeName" then do
      let rawType ← once key d.rawType (readString j)
      readEnumMembers standing { d with rawType := some rawType } rest
    else if key = "nested" then do
      let nested ← once key d.nested (readDeclarations standing j)
      readEnumMembers standing { d with nested := some nested } rest
    else readEnumMembers standing d rest
termination_by structural ms => ms
def readEnumItems (standing : Standing) : List Json → Reading (EnumDecl × List Declaration)
  | [] => fail (.tooShort 0 .enum)
  | [name] => do
    discard (atIndex 0 (readString name))
    fail (.tooShort 1 .enum)
  | [name, rawType] => do
    let name ← atIndex 0 (readString name)
    let rawType ← atIndex 1 (readString rawType)
    .ok (⟨name, rawType⟩, [])
  | name :: rawType :: nested :: rest => do
    let name ← atIndex 0 (readString name)
    let rawType ← atIndex 1 (readString rawType)
    let nested ← atIndex 2 (readDeclarations standing nested)
    if rest.isEmpty then .ok (⟨name, rawType⟩, nested)
    else leftOver standing .enum (rest.length + 3)
termination_by structural js => js
end

def readStruct (standing : Standing) : Json → Reading StructDecl
  | .object members => readStructMembers standing {} members
  | .array items => readStructItems standing items
  | j => mismatch j (.record .struct)

def readEnum (standing : Standing) : Json → Reading (EnumDecl × List Declaration)
  | .object members => readEnumMembers standing {} members
  | .array items => readEnumItems standing items
  | j => mismatch j (.record .enum)

/-! ## Source files -/

structure SourceDraft where
  filename : Option String := none
  declarations : Option (List Declaration) := none

def SourceDraft.finish (d : SourceDraft) : Reading SourceFile := do
  let filename ← required "filename" d.filename
  .ok ⟨filename, d.declarations.getD []⟩

def readSourceMembers (d : SourceDraft) : List (String × Json) → Reading SourceFile
  | [] => d.finish
  | (key, j) :: rest =>
    if key = "filename" then do
      let filename ← once key d.filename (readString j)
      readSourceMembers { d with filename := some filename } rest
    else if key = "declarations" then do
      let declarations ← once key d.declarations (readDeclarations .outside j)
      readSourceMembers { d with declarations := some declarations } rest
    else readSourceMembers d rest

def readSource : Json → Reading SourceFile
  | .object members => readSourceMembers {} members
  | .array [] => fail (.tooShort 0 .sourceFile)
  | .array [filename] => do
    let filename ← atIndex 0 (readString filename)
    .ok ⟨filename, []⟩
  | .array (filename :: declarations :: rest) => do
    let filename ← atIndex 0 (readString filename)
    let declarations ← atIndex 1 (readDeclarations .outside declarations)
    if rest.isEmpty then .ok ⟨filename, declarations⟩
    else leftOver .outside .sourceFile (rest.length + 2)
  | j => mismatch j (.record .sourceFile)

end Document

/-- Reads a source file from a value; of a repeated key the last value counts. -/
def SourceFile.ofJson (j : Json) : Except Failure SourceFile :=
  Document.readSource j.unrepeated

end SwiftCodec
