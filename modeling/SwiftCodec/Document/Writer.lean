import SwiftCodec.Declaration.Basic
import SwiftCodec.Document.Value
import SwiftCodec.Json.Writer

/-!
Declarations as JSON values. An absent alias, an empty list of arguments and an empty list of
nested declarations are left out; a declaration has its kind first.
-/
namespace SwiftCodec

namespace TypeExpr

mutual
def toJson : TypeExpr → Json
  | ⟨base, target, args⟩ =>
    .object (("baseName", .string base) ::
      ((match target with
        | none => []
        | some name => [("alias", .string name)]) ++
      (match args with
        | [] => []
        | t :: ts => [("genericArguments", .array (toJson t :: toJsonAll ts))])))
termination_by structural t => t
def toJsonAll : List TypeExpr → List Json
  | [] => []
  | t :: ts => toJson t :: toJsonAll ts
termination_by structural ts => ts
end

end TypeExpr

def Json.strings (names : List String) : Json := .array (names.map .string)

def Field.toJson (f : Field) : Json :=
  .object [("name", .string f.name), ("type", f.type.toJson)]

def EnumDecl.members (e : EnumDecl) : List (String × Json) :=
  [("baseName", .string e.name), ("rawTypeName", .string e.rawType)]

def AliasDecl.members (a : AliasDecl) : List (String × Json) :=
  [("name", .string a.name), ("type", a.target.toJson)]

def ExtensionDecl.members (x : ExtensionDecl) : List (String × Json) :=
  [("baseName", .string x.name), ("functions", Json.strings x.functions)]

def Declaration.kind : Declaration → Document.Kind
  | .struct _ => .struct
  | .enum _ _ => .enum
  | .typeAlias _ => .typeAlias
  | .extension _ => .extension

mutual
def StructDecl.members : StructDecl → List (String × Json)
  | ⟨name, parameters, fields, nested⟩ =>
    [("baseName", .string name), ("typeArguments", Json.strings parameters),
      ("varDecls", .array (fields.map Field.toJson))] ++ Declaration.nestedMember nested
termination_by structural s => s
/-- The members of a declaration other than its kind. -/
def Declaration.members : Declaration → List (String × Json)
  | .struct s => s.members
  | .enum e nested => e.members ++ Declaration.nestedMember nested
  | .typeAlias a => a.members
  | .extension x => x.members
termination_by structural d => d
def Declaration.nestedMember : List Declaration → List (String × Json)
  | [] => []
  | d :: ds =>
    [("nested", .array (.object (("kind", .string d.kind.text) :: d.members) ::
      Declaration.toJsonAll ds))]
termination_by structural ds => ds
def Declaration.toJsonAll : List Declaration → List Json
  | [] => []
  | d :: ds => .object (("kind", .string d.kind.text) :: d.members) :: Declaration.toJsonAll ds
termination_by structural ds => ds
end

theorem StructDecl.members_eq (s : StructDecl) :
    s.members = [("baseName", .string s.name), ("typeArguments", Json.strings s.parameters),
      ("varDecls", .array (s.fields.map Field.toJson))] ++ Declaration.nestedMember s.nested := by
  cases s
  rfl

namespace Declaration

def toJson (d : Declaration) : Json := .object (("kind", .string d.kind.text) :: d.members)

end Declaration

/-- A source file as a JSON value. -/
def SourceFile.toJson (f : SourceFile) : Json :=
  .object [("filename", .string f.filename),
    ("declarations", .array (f.declarations.map Declaration.toJson))]

/-- A source file as a JSON text. -/
def SourceFile.toText (f : SourceFile) : String := f.toJson.compact

end SwiftCodec
