import SwiftCodec.Declaration.Inventory
import SwiftCodec.TypeExpr.Shape

/-!
What generation relies on: names are identifiers or dotted names, the types with a spelling of
their own have the right number of arguments, and no two types of a file share a name.
-/
namespace SwiftCodec

def checkDotted (role : NameRole) (name : String) : Except Defect Unit :=
  if Name.isDotted name then .ok () else .error (.invalidName role name)

def checkIdentifier (role : NameRole) (name : String) : Except Defect Unit :=
  if Name.isIdentifier name then .ok () else .error (.invalidName role name)

namespace TypeExpr

mutual
/-- Checks the name, then the number of arguments, then the arguments from left to right. -/
def validate : TypeExpr → Except Defect Unit
  | ⟨base, target, args⟩ => do
    checkDotted .typeName base
    discard (shape ⟨base, target, args⟩)
    validateAll args
termination_by structural t => t
def validateAll : List TypeExpr → Except Defect Unit
  | [] => .ok ()
  | t :: ts => do
    validate t
    validateAll ts
termination_by structural ts => ts
end

end TypeExpr

/-- Checks names in order: the form of each, and that it has not come before. -/
def checkDistinct (seen : List String) : List String → Except Defect Unit
  | [] => .ok ()
  | name :: names => do
    checkDotted .typeName name
    if seen.contains name then .error (.duplicate name) else checkDistinct (name :: seen) names

namespace Inventory

def validateStruct (s : StructDecl) : Except Defect Unit := do
  s.parameters.forM (checkIdentifier .typeArgument)
  s.fields.forM fun f => do
    checkIdentifier .fieldName f.name
    f.type.validate

def validateAlias (a : AliasDecl) : Except Defect Unit := do
  checkDotted .typeAlias a.name
  a.target.validate

def typeNames (i : Inventory) : List String := i.structs.map (·.name) ++ i.enums.map (·.name)

/-- The first offence, looking at type names, then structs, raw types and aliases. -/
def validate (i : Inventory) : Except Defect Unit := do
  checkDistinct [] i.typeNames
  i.structs.forM validateStruct
  i.enums.forM fun e => checkDotted .rawType e.rawType
  i.aliases.forM validateAlias

end Inventory

def SourceFile.validate (file : SourceFile) : Except Defect Unit := file.flatten.validate

end SwiftCodec
