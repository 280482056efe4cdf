/-!
Types as declarations write them: a base name, and the types it is applied to.
-/
namespace SwiftCodec

/-- `target` is the final name of a type alias whose target takes no arguments; it is filled in by
alias resolution. -/
structure TypeExpr where
  base : String
  target : Option String := none
  args : List TypeExpr := []
deriving Repr, Inhabited, BEq

namespace TypeExpr

mutual
/-- Equality of types can be decided. -/
def decEq : (a b : TypeExpr) → Decidable (a = b)
  | ⟨base, target, args⟩, ⟨base', target', args'⟩ =>
    if hb : base = base' then
      if ha : target = target' then
        match decEqList args args' with
        | isTrue h => isTrue (by rw [hb, ha, h])
        | isFalse h => isFalse (fun e => h (TypeExpr.mk.inj e).2.2)
      else isFalse (fun e => ha (TypeExpr.mk.inj e).2.1)
    else isFalse (fun e => hb (TypeExpr.mk.inj e).1)
termination_by structural a => a
def decEqList : (as bs : List TypeExpr) → Decidable (as = bs)
  | [], [] => isTrue rfl
  | [], _ :: _ => isFalse (fun e => nomatch e)
  | _ :: _, [] => isFalse (fun e => nomatch e)
  | a :: as, b :: bs =>
    match decEq a b, decEqList as bs with
    | isTrue h, isTrue h' => isTrue (by rw [h, h'])
    | isFalse h, _ => isFalse (fun e => h (List.cons.inj e).1)
    | _, isFalse h => isFalse (fun e => h (List.cons.inj e).2)
termination_by structural as => as
end

instance : DecidableEq TypeExpr := decEq

def named (name : String) : TypeExpr := { base := name }
def generic (name : String) (args : List TypeExpr) : TypeExpr := { base := name, args := args }
def optional (inner : TypeExpr) : TypeExpr := generic "Optional" [inner]
def array (element : TypeExpr) : TypeExpr := generic "Array" [element]
def dictionary (key value : TypeExpr) : TypeExpr := generic "Dictionary" [key, value]

/-- The target of the alias if there is one, else the base name. -/
def resolvedName (t : TypeExpr) : String := t.target.getD t.base

end TypeExpr

end SwiftCodec
