import SwiftCodec.TypeExpr.Shape

/-!
The spelling of a type in Swift: `T?` for an optional, `[T]` for an array, `[K:V]` for a
dictionary and `Base<A, B>` for everything else that has arguments. A wrong number of arguments
falls back to the angle brackets, so that every type has a spelling.
-/
namespace SwiftCodec

namespace TypeExpr

/-- The spelling of a type with the spellings of its arguments given. -/
def spellWith (base : String) : List String → String
  | [] => base
  | [a] =>
    if base = "Optional" then a ++ "?"
    else if base = "Array" then "[" ++ a ++ "]"
    else base ++ "<" ++ a ++ ">"
  | [a, b] =>
    if base = "Dictionary" then "[" ++ a ++ ":" ++ b ++ "]"
    else base ++ "<" ++ a ++ ", " ++ b ++ ">"
  | args => base ++ "<" ++ String.intercalate ", " args ++ ">"

mutual
def spell : TypeExpr → String
  | ⟨base, _, args⟩ => spellWith base (spellAll args)
termination_by structural t => t
def spellAll : List TypeExpr → List String
  | [] => []
  | t :: ts => spell t :: spellAll ts
termination_by structural ts => ts
end

theorem spellAll_eq_map (ts : List TypeExpr) : spellAll ts = ts.map spell := by
  induction ts with
  | nil => rfl
  | cons t ts ih => simp [spellAll, ih]

end TypeExpr

end SwiftCodec
