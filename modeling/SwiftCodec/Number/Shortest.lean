import SwiftCodec.Number.Binary64

/-!
The shortest decimal that reads back as a given double. A double stands for every real that
rounds to it; of the decimals in that interval the one with the fewest digits is taken, and of
several with as few digits the one nearest to the double.
-/
namespace SwiftCodec

/-- The value `digits * 10 ^ exponent`. -/
structure Decimal where
  digits : Nat
  exponent : Int
deriving DecidableEq, Repr

namespace Binary64

/-- Four times the value of a finite double as a quotient of naturals. -/
def fourfold (x : Binary64) : Nat × Nat :=
  if 0 ≤ x.power then (4 * x.significand * Nat.pow 2 x.power.toNat, 1)
  else (4 * x.significand, Nat.pow 2 (-x.power).toNat)

/-- Whether `c * 10 ^ e` rounds to the double. The ends of the interval belong to a double with
an even significand. -/
def covers (x : Binary64) (c : Nat) (e : Int) : Bool :=
  let den := x.fourfold.2
  let unit := if 0 ≤ x.power then Nat.pow 2 x.power.toNat else 1
  let middle := x.fourfold.1
  let upper := middle + 2 * unit
  let lower := middle - (if x.isNarrowBelow then 1 else 2) * unit
  let lhs := 4 * c * den * Nat.pow 10 e.toNat
  let scale := Nat.pow 10 (-e).toNat
  if x.significand % 2 = 0 then lower * scale ≤ lhs && lhs ≤ upper * scale
  else lower * scale < lhs && lhs < upper * scale

/-- The greatest multiple of `10 ^ e` that is not above the double, in units of `10 ^ e`. -/
def floorOn (x : Binary64) (e : Int) : Nat :=
  x.fourfold.1 * Nat.pow 10 (-e).toNat / (4 * x.fourfold.2 * Nat.pow 10 e.toNat)

/-- `floorOn` leaves no remainder smaller than half a unit: the next multiple is nearer. -/
def nearerAbove (x : Binary64) (e : Int) : Bool :=
  let num := x.fourfold.1 * Nat.pow 10 (-e).toNat
  let den := 4 * x.fourfold.2 * Nat.pow 10 e.toNat
  let low := num / den
  let twice := 2 * (num - low * den)
  den < twice || (den = twice && low % 2 = 1)

/-- The two neighbours of the double on the grid of `10 ^ e`, when they round to it. -/
def onGrid? (x : Binary64) (e : Int) : Option Nat :=
  let low := x.floorOn e
  match x.covers low e && 0 < low, x.covers (low + 1) e with
  | true, true => some (if x.nearerAbove e then low + 1 else low)
  | true, false => some low
  | false, true => some (low + 1)
  | false, false => none

/-- The least `p` with the double below `10 ^ p`, found by stepping down from above. -/
def leadingPower (x : Binary64) : Nat → Int → Int
  | 0, p => p
  | n + 1, p => if x.floorOn (p - 1) = 0 then leadingPower x n (p - 1) else p

def search (x : Binary64) (p : Int) : Nat → Nat → Decimal
  | 0, n => ⟨x.floorOn (p - n), p - n⟩
  | fuel + 1, n =>
    match x.onGrid? (p - n) with
    | some c => ⟨c, p - n⟩
    | none => search x p fuel (n + 1)

/-- Seventeen digits always suffice, and no double reaches `10 ^ 309` or has a leading digit
below `10 ^ -324`. -/
def shortest (x : Binary64) : Decimal :=
  x.search (x.leadingPower 640 310) 17 1

end Binary64

/-- Moves trailing zeros into the exponent. -/
def Decimal.strip (d : Decimal) : Nat → Decimal
  | 0 => d
  | fuel + 1 => if d.digits ≠ 0 ∧ d.digits % 10 = 0 then
      Decimal.strip ⟨d.digits / 10, d.exponent + 1⟩ fuel else d

/-- Where a printer of doubles leaves positional notation, and how it marks exponents. -/
structure NumberStyle where
  /-- Largest scientific exponent written positionally. -/
  largest : Int
  /-- Smallest scientific exponent written positionally. -/
  smallest : Int
  /-- A positive exponent carries a sign. -/
  plus : Bool
  /-- A whole number ends in `.0`. -/
  pointZero : Bool

/-- The text of a finite double under a style. -/
def Binary64.write (style : NumberStyle) (x : Binary64) : String :=
  let sign := if x.isNegative then "-" else ""
  if x.isZero then sign ++ (if style.pointZero then "0.0" else "0") else
  let d := x.shortest.strip 20
  let ds := toString d.digits
  let count : Int := ds.length
  let scientific := count + d.exponent - 1
  let zeros (n : Int) := String.ofList (List.replicate n.toNat '0')
  let body :=
    if scientific < style.smallest || style.largest < scientific then
      let mantissa :=
        if ds.length = 1 then ds
        else String.ofList (ds.toList.take 1) ++ "." ++ String.ofList (ds.toList.drop 1)
      let mark := if scientific < 0 then "e-" else if style.plus then "e+" else "e"
      mantissa ++ mark ++ toString scientific.natAbs
    else if 0 ≤ d.exponent then
      ds ++ zeros d.exponent ++ (if style.pointZero then ".0" else "")
    else if 0 ≤ scientific then
      let whole := (scientific + 1).toNat
      String.ofList (ds.toList.take whole) ++ "." ++ String.ofList (ds.toList.drop whole)
    else
      "0." ++ zeros (-scientific - 1) ++ ds
  sign ++ body

/-- The form of doubles in documents and messages: positional from `1e-5` to below `1e16`, an
exponent always signed, `.0` after a whole number. -/
def NumberStyle.document : NumberStyle := ⟨15, -5, true, true⟩

end SwiftCodec
