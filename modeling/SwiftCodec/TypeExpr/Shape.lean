import SwiftCodec.Defect
import SwiftCodec.TypeExpr.Basic

/-!
The shape of a type: which of the three types with a spelling of their own it is, if any, and
whether it is one that already is JSON.
-/
namespace SwiftCodec

inductive Shape where
  | plain
  | optional (inner : TypeExpr)
  | array (element : TypeExpr)
  | dictionary (key value : TypeExpr)
  | generic (args : List TypeExpr)
deriving DecidableEq, Repr

/-- The shape of a type, or the defect of an `Optional`, `Array` or `Dictionary` with a wrong
number of arguments. -/
def TypeExpr.shape (t : TypeExpr) : Except Defect Shape :=
  let wrong (expected : Nat) : Except Defect Shape :=
    .error (.malformedType t.base expected t.args.length)
  if t.base = "Optional" then
    match t.args with
    | [inner] => .ok (.optional inner)
    | _ => wrong 1
  else if t.base = "Array" then
    match t.args with
    | [element] => .ok (.array element)
    | _ => wrong 1
  else if t.base = "Dictionary" then
    match t.args with
    | [key, value] => .ok (.dictionary key value)
    | _ => wrong 2
  else
    match t.args with
    | [] => .ok .plain
    | args => .ok (.generic args)

/-- A type that is JSON already: one that is used as it is, or a raw container reached by a
conditional cast. -/
inductive Marker where
  | passThrough
  | cast
deriving DecidableEq, Repr

namespace Marker

def named? (name : String) : Option Marker :=
  if name = "AnyObject" ∨ name = "AnyJson" then some .passThrough
  else if name = "JsonObject" ∨ name = "JsonArray" then some .cast
  else none

/-- The marker among the alias and the base name of a type; one that is used as it is comes before
one that needs a cast. -/
def of? (t : TypeExpr) : Option Marker :=
  let names := t.target.toList ++ [t.base]
  if names.any (named? · = some .passThrough) then some .passThrough
  else if names.any (named? · = some .cast) then some .cast
  else none

end Marker

end SwiftCodec
