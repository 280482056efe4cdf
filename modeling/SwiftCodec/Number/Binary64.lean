/-!
Double precision numbers, held as their bit patterns so that equality is equality of patterns.
-/
namespace SwiftCodec

/-- A double by its sixty-four bits: sign, eleven exponent bits, fifty-two fraction bits. -/
structure Binary64 where
  bits : UInt64
deriving DecidableEq, Repr, Inhabited

namespace Binary64

def ofFloat (x : Float) : Binary64 := ⟨x.toBits⟩

def isNegative (x : Binary64) : Bool := x.bits.toNat / Nat.pow 2 63 = 1
def exponentField (x : Binary64) : Nat := x.bits.toNat / Nat.pow 2 52 % Nat.pow 2 11
def fractionField (x : Binary64) : Nat := x.bits.toNat % Nat.pow 2 52

/-- Infinities and NaNs use the largest exponent field. -/
def isFinite (x : Binary64) : Bool := x.exponentField ≠ 2047

/-- The integer `m` with the magnitude of a finite double equal to `m * 2 ^ q`. -/
def significand (x : Binary64) : Nat :=
  if x.exponentField = 0 then x.fractionField else Nat.pow 2 52 + x.fractionField

/-- The power `q` that goes with `significand`. -/
def power (x : Binary64) : Int := (max x.exponentField 1 : Nat) - (1075 : Int)

def isZero (x : Binary64) : Bool := x.isFinite && x.significand = 0

/-- The next double below is only half as far away as the next one above. -/
def isNarrowBelow (x : Binary64) : Bool := x.fractionField = 0 && 1 < x.exponentField

end Binary64

end SwiftCodec
