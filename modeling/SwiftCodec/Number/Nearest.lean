import SwiftCodec.Number.Shortest

/-!
Decimal numbers as written, and the double nearest to one.
-/
namespace SwiftCodec

namespace Decimal

/-- Adds digits behind a natural. -/
def naturalFrom (n : Nat) (digits : List Char) : Nat :=
  digits.foldl (fun n d => 10 * n + (d.toNat - 48)) n

/-- What an exponent says, from behind its letter. -/
def exponentFrom : List Char → Int
  | '-' :: ds => -naturalFrom 0 ds
  | '+' :: ds => naturalFrom 0 ds
  | ds => naturalFrom 0 ds

/-- The decimal that digits, a point and an exponent spell; the latter two may be missing. -/
def ofDigits (cs : List Char) : Decimal :=
  let whole := naturalFrom 0 (cs.takeWhile Char.isDigit)
  let rest := cs.dropWhile Char.isDigit
  let fraction := if rest.head? = some '.' then (rest.drop 1).takeWhile Char.isDigit else []
  let rest := if rest.head? = some '.' then (rest.drop 1).dropWhile Char.isDigit else rest
  let exponent := if rest.isEmpty then 0 else exponentFrom (rest.drop 1)
  ⟨naturalFrom whole fraction, exponent - fraction.length⟩

/-- The nearest double. What exceeds `10 ^ 310` is infinite, what lies below `10 ^ -400` is
zero, and neither is worked out. -/
def nearest (d : Decimal) : Float :=
  let size := (toString d.digits).length + d.exponent
  if d.digits = 0 ∨ size < -400 then 0
  else if 310 < size then 1 / 0
  else Float.ofScientific d.digits (d.exponent < 0) d.exponent.natAbs

end Decimal

/-- The double nearest to a decimal with an optional sign. -/
def nearestDouble (text : String) : Float :=
  match text.toList with
  | '-' :: cs => -(Decimal.ofDigits cs).nearest
  | cs => (Decimal.ofDigits cs).nearest

end SwiftCodec
