import SwiftCodec.Number.Nearest
import SwiftCodec.Number.Remainder

/-!
Numbers in a filter. Integers of sixty-four bits are exact. Every other number that is read keeps
its spelling until something is calculated with it; the result is then a double.
-/
namespace SwiftCodec

namespace Filter

inductive Quantity where
  /-- An integer of sixty-four bits. -/
  | whole (n : Int)
  /-- The result of a calculation. -/
  | real (x : Float)
  /-- A number as it was read. -/
  | written (text : String)
deriving Repr, Inhabited

namespace Quantity

/-- The least integer of sixty-four bits. -/
def least : Int := -9223372036854775808

/-- The greatest integer of sixty-four bits. -/
def greatest : Int := 9223372036854775807

/-- Integers wrap around at sixty-four bits. -/
def wrapped (n : Int) : Quantity := .whole (n.bmod (Nat.pow 2 64))

/-- The integer nearest to one that may have more than sixty-four bits. -/
def clamped (n : Int) : Quantity := .whole (max least (min n greatest))

/-- A number by its text. -/
def ofText (text : String) : Quantity :=
  let (isNegative, digits) :=
    match text.toList with
    | '-' :: cs => (true, cs)
    | cs => (false, cs)
  let magnitude : Int := Decimal.naturalFrom 0 digits
  let n := if isNegative then -magnitude else magnitude
  if digits.all Char.isDigit ∧ least ≤ n ∧ n ≤ greatest then .whole n else .written text

def toFloat : Quantity → Float
  | .whole n => .ofInt n
  | .real x => x
  | .written text => nearestDouble text

/-- The form of calculated doubles: positional from `1e-4` to below `1e16`, no sign in front of a
positive exponent, `.0` after a whole number. -/
def style : NumberStyle := ⟨15, -4, false, true⟩

/-- The text of a number; there is none for infinities and what is no number. -/
def text : Quantity → String
  | .whole n => toString n
  | .real x => if x.isFinite then (Binary64.ofFloat x).write style else "null"
  | .written text => text

/-- What is no number comes before all numbers, itself included. -/
def compareFloats (x y : Float) : Ordering :=
  if x.isNaN then .lt
  else if y.isNaN then .gt
  else if x < y then .lt
  else if y < x then .gt
  else .eq

/-- The order by value, whatever the spelling. -/
def compare : Quantity → Quantity → Ordering
  | .whole m, .whole n => Ord.compare m n
  | p, q => compareFloats p.toFloat q.toFloat

/-- Calculates with integers if both operands are. -/
def combine (whole : Int → Int → Int) (real : Float → Float → Float) :
    Quantity → Quantity → Quantity
  | .whole m, .whole n => wrapped (whole m n)
  | p, q => .real (real p.toFloat q.toFloat)

def add : Quantity → Quantity → Quantity := combine (· + ·) (· + ·)
def subtract : Quantity → Quantity → Quantity := combine (· - ·) (· - ·)
def multiply : Quantity → Quantity → Quantity := combine (· * ·) (· * ·)
def divide (p q : Quantity) : Quantity := .real (p.toFloat / q.toFloat)

/-- The remainder has the sign of the dividend; only that of integers by zero is missing. -/
def remainder? : Quantity → Quantity → Option Quantity
  | .whole _, .whole 0 => none
  | p, q => some (combine Int.tmod SwiftCodec.remainder p q)

/-- Changes an integer in one way and a double in another. -/
def change (whole : Int → Int) (real : Float → Float) : Quantity → Quantity
  | .whole n => wrapped (whole n)
  | q => .real (real q.toFloat)

def negate : Quantity → Quantity := change Int.neg Float.neg
def magnitude : Quantity → Quantity := change (fun n => n.natAbs) Float.abs

/-- The integral value of a double, which counts as zero if it is no number. What is out of the
range of integers stays out of it. -/
def truncated (x : Float) : Int :=
  if x.isNaN then 0
  else if 1e19 ≤ x.abs then if x < 0 then 2 * least else 2 * greatest
  else if x < 0 then -(x.abs.toUInt64.toNat) else x.toUInt64.toNat

/-- Rounds to an integer of sixty-four bits. -/
def round (way : Float → Float) : Quantity → Quantity
  | .whole n => .whole n
  | q => clamped (truncated (way q.toFloat))

end Quantity

end Filter

end SwiftCodec
