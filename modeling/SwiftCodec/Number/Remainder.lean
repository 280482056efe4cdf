import SwiftCodec.Number.Binary64

/-!
The remainder of two doubles without rounding: what is left of the dividend after taking away the
divisor as often as it fits, with the sign of the dividend.
-/
namespace SwiftCodec

namespace Binary64

/-- The power of two of which two doubles are both multiples. -/
def commonPower (x y : Binary64) : Int := min x.power y.power

/-- The magnitude of a finite double in units of a power of two that divides it. -/
def inUnitsOf (x : Binary64) (q : Int) : Nat := x.significand * Nat.pow 2 (x.power - q).toNat

/-- The magnitude of the remainder of finite doubles in units of their common power. It is below
`2 ^ 53`, because the operand with the smaller power is. -/
def remainderUnits (x y : Binary64) : Nat :=
  x.inUnitsOf (x.commonPower y) % y.inUnitsOf (x.commonPower y)

end Binary64

/-- There is no remainder of an infinite dividend or by zero. -/
def remainder (x y : Float) : Float :=
  let a := Binary64.ofFloat x
  let b := Binary64.ofFloat y
  if ! a.isFinite || y.isNaN || b.isZero then 0 / 0
  else if ! b.isFinite then x
  else
    let r := (Float.ofNat (a.remainderUnits b)).scaleB (a.commonPower b)
    if a.isNegative then -r else r

end SwiftCodec
