import SwiftCodec.TypeExpr.Basic

/-!
What a source file declares. Structs and enums may hold further declarations; an extension is
known by the names of its functions only.
-/
namespace SwiftCodec

structure Field where
  name : String
  type : TypeExpr
deriving DecidableEq, Repr, Inhabited

structure EnumDecl where
  name : String
  rawType : String
deriving DecidableEq, Repr, Inhabited

structure AliasDecl where
  name : String
  target : TypeExpr
deriving DecidableEq, Repr, Inhabited

structure ExtensionDecl where
  name : String
  functions : List String := []
deriving DecidableEq, Repr, Inhabited

mutual
structure StructDecl where
  name : String
  /-- The names of its type arguments. -/
  parameters : List String := []
  fields : List Field := []
  nested : List Declaration := []
/-- A struct is resolved with all that is declared inside it. Of an enum only the name and the raw
type are, so what is inside stands beside it. -/
inductive Declaration where
  | struct (decl : StructDecl)
  | enum (decl : EnumDecl) (nested : List Declaration)
  | typeAlias (decl : AliasDecl)
  | extension (decl : ExtensionDecl)
end

deriving instance Repr, Inhabited for StructDecl, Declaration

mutual
/-- Equality of structs can be decided. -/
def StructDecl.decEq : (a b : StructDecl) → Decidable (a = b)
  | ⟨name, parameters, fields, nested⟩, ⟨name', parameters', fields', nested'⟩ =>
    haveI := Declaration.decEqList nested nested'
    decidable_of_iff
      (name = name' ∧ parameters = parameters' ∧ fields = fields' ∧ nested = nested') (by simp)
termination_by structural a => a
def Declaration.decEq : (a b : Declaration) → Decidable (a = b)
  | .struct s, .struct s' =>
    haveI := StructDecl.decEq s s'
    decidable_of_iff (s = s') (by simp)
  | .enum e nested, .enum e' nested' =>
    haveI := Declaration.decEqList nested nested'
    decidable_of_iff (e = e' ∧ nested = nested') (by simp)
  | .typeAlias a, .typeAlias a' => decidable_of_iff (a = a') (by simp)
  | .extension x, .extension x' => decidable_of_iff (x = x') (by simp)
  | .struct _, .enum _ _ | .struct _, .typeAlias _ | .struct _, .extension _
  | .enum _ _, .struct _ | .enum _ _, .typeAlias _ | .enum _ _, .extension _
  | .typeAlias _, .struct _ | .typeAlias _, .enum _ _ | .typeAlias _, .extension _
  | .extension _, .struct _ | .extension _, .enum _ _ | .extension _, .typeAlias _ =>
    isFalse nofun
termination_by structural a => a
def Declaration.decEqList : (as bs : List Declaration) → Decidable (as = bs)
  | [], [] => isTrue rfl
  | a :: as, b :: bs =>
    haveI := Declaration.decEq a b
    haveI := Declaration.decEqList as bs
    decidable_of_iff (a = b ∧ as = bs) (by simp)
  | [], _ :: _ | _ :: _, [] => isFalse nofun
termination_by structural as => as
end

instance : DecidableEq StructDecl := StructDecl.decEq

structure SourceFile where
  filename : String
  declarations : List Declaration := []
deriving Repr, Inhabited

end SwiftCodec
