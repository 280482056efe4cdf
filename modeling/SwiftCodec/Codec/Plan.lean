import SwiftCodec.Registry.Basic
import SwiftCodec.TypeExpr.Shape

/-!
How values of a type are coded. A plan is made once for a type and serves both directions: a
marker needs a cast or nothing, a type argument of the enclosing struct is left to the function
its caller passes in, and every other type has a codec of its own, which takes one closure for
each of its arguments.
-/
namespace SwiftCodec

inductive Plan where
  | marker (kind : Marker) (name : String)
  | parameter (name : String) (args : List Plan)
  | own (name : String) (args : List Plan)
deriving Repr, Inhabited

namespace Plan

mutual
/-- The plan of a type inside a struct with the given type arguments. -/
def of (params : List String) : TypeExpr → Plan
  | ⟨base, target, args⟩ =>
    let name := TypeExpr.resolvedName ⟨base, target, args⟩
    match Marker.of? ⟨base, target, args⟩ with
    | some kind => .marker kind name
    | none =>
      if params.contains name then .parameter name (ofAll params args)
      else .own name (ofAll params args)
termination_by structural t => t
def ofAll (params : List String) : List TypeExpr → List Plan
  | [] => []
  | t :: ts => of params t :: ofAll params ts
termination_by structural ts => ts
end

/-- A function of the value it is applied to. -/
def closure (body : String) : String := "\x7b " ++ body ++ " \x7d"

/-- The value a closure is applied to. -/
def closureInput : String := "$0"

mutual
/-- The expression that decodes `input` by a plan. -/
def decode (input : String) : Plan → String
  | .marker .passThrough name => input ++ " as " ++ name
  | .marker .cast name => input ++ " as? " ++ name
  | .parameter name args =>
    "decode" ++ name ++ "(" ++ String.intercalate ", " (decodeClosures args ++ [input]) ++ ")"
  | .own name args =>
    name ++ "." ++ decodeName ++ "(" ++
      String.intercalate ", " (decodeClosures args ++ [input]) ++ ")"
termination_by structural p => p
def decodeClosures : List Plan → List String
  | [] => []
  | p :: ps => closure (decode closureInput p) :: decodeClosures ps
termination_by structural ps => ps
end

mutual
/-- The expression that encodes `value` by a plan. -/
def encode (value : String) : Plan → String
  | .marker _ _ => value
  | .parameter name _ => "encode" ++ name ++ "(" ++ value ++ ")"
  | .own _ args =>
    value ++ "." ++ encodeName ++ "(" ++ String.intercalate ", " (encodeClosures args) ++ ")"
termination_by structural p => p
def encodeClosures : List Plan → List String
  | [] => []
  | p :: ps => closure (encode closureInput p) :: encodeClosures ps
termination_by structural ps => ps
end

end Plan

/-- The expression that decodes `input` into an optional value of a type. -/
def decodeExpression (input : String) (t : TypeExpr) (params : List String) : String :=
  (Plan.of params t).decode input

/-- The closure that stands for a type among the arguments of another. -/
def decodeClosure (t : TypeExpr) (params : List String) : String :=
  Plan.closure (decodeExpression Plan.closureInput t params)

/-- The expression that encodes `value`, which has the given type. -/
def encodeExpression (value : String) (t : TypeExpr) (params : List String) : String :=
  (Plan.of params t).encode value

end SwiftCodec
