/-!
Why no code can be generated from a declaration.
-/
namespace SwiftCodec

/-- What a checked name stands for. -/
inductive NameRole where
  | typeName
  | typeArgument
  | fieldName
  | rawType
  | typeAlias
deriving DecidableEq, Repr

def NameRole.text : NameRole → String
  | .typeName => "type name"
  | .typeArgument => "type argument"
  | .fieldName => "field name"
  | .rawType => "raw type"
  | .typeAlias => "type alias"

inductive Defect where
  /-- `Optional`, `Array` or `Dictionary` with a number of arguments it does not take. -/
  | malformedType (name : String) (expected found : Nat)
  /-- A dictionary key that is neither `String` nor a known enum. -/
  | unsupportedKey (field key : String)
  | aliasCycle (name : String)
  | invalidName (role : NameRole) (name : String)
  | duplicate (name : String)
deriving DecidableEq, Repr

def Defect.message : Defect → String
  | .malformedType name expected found =>
    "`" ++ name ++ "` takes " ++ toString expected ++ " generic argument(s), found " ++
      toString found
  | .unsupportedKey field key =>
    "field `" ++ field ++ "` is keyed by `" ++ key ++
      "`, which is neither String nor an enum declared in this file"
  | .aliasCycle name => "type alias `" ++ name ++ "` refers to itself"
  | .invalidName role name => "invalid " ++ role.text ++ " `" ++ name ++ "`"
  | .duplicate name => "`" ++ name ++ "` is declared more than once"

end SwiftCodec
