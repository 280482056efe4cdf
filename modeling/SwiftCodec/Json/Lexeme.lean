import SwiftCodec.Json.Cursor

/-!
The words of JSON: literals, strings and numbers. Each reader starts at the first character of
its word and leaves the cursor behind it.
-/
namespace SwiftCodec

namespace Cursor

/-- Reads the letters of `null`, `true` or `false`. -/
def literal : List Char → Cursor → Except Fault Cursor
  | [], c => .ok c
  | w :: ws, c =>
    match c.rest with
    | [] => .error (c.fault .endInValue)
    | x :: _ => if x = w then literal ws c.next else .error (c.faultAhead .expectedLiteral)

/-! ## Strings -/

def hexValue? (c : Char) : Option Nat :=
  if '0' ≤ c && c ≤ '9' then some (c.toNat - 48)
  else if 'a' ≤ c && c ≤ 'f' then some (c.toNat - 87)
  else if 'A' ≤ c && c ≤ 'F' then some (c.toNat - 55)
  else none

/-- The value of four hexadecimal digits. -/
def fourHex? : List Char → Option Nat
  | [a, b, c, d] => do
    return 4096 * (← hexValue? a) + 256 * (← hexValue? b) + 16 * (← hexValue? c) + (← hexValue? d)
  | _ => none

def byteCount (cs : List Char) : Nat := cs.foldl (fun n c => n + c.utf8Size) 0

/-- Reads four hexadecimal digits. Four bytes are taken whatever they are, so that a fault is
reported behind them; a shorter rest is taken whole. -/
def fourDigits (c : Cursor) : Except Fault (Nat × Cursor) :=
  match fourHex? (c.rest.take 4) with
  | some n => .ok (n, ⟨c.rest.drop 4, c.position.afterBytes 4 c.rest⟩)
  | none =>
    if byteCount c.rest < 4 then
      .error ⟨[], .endInString, c.position.afterBytes (byteCount c.rest) c.rest⟩
    else .error ⟨[], .badEscape, c.position.afterBytes 4 c.rest⟩

/-- Expects a given character of the second half of a surrogate pair. -/
def expectSurrogate (x : Char) (c : Cursor) : Except Fault Cursor :=
  match c.rest with
  | [] => .error (c.fault .endInString)
  | y :: _ => if y = x then .ok c.next else .error (c.faultAhead .unfinishedSurrogate)

/-- Reads the digits of a `\u` escape, and those of a second one when the first names the leading
half of a surrogate pair. -/
def unicodeEscape (c : Cursor) : Except Fault (Char × Cursor) := do
  let (n, c) ← c.fourDigits
  if 0xDC00 ≤ n ∧ n ≤ 0xDFFF then .error (c.fault .loneSurrogate)
  else if n < 0xD800 ∨ 0xDBFF < n then .ok (Char.ofNat n, c)
  else
    let c ← c.expectSurrogate '\\'
    let c ← c.expectSurrogate 'u'
    let (m, c) ← c.fourDigits
    if m < 0xDC00 ∨ 0xDFFF < m then .error (c.fault .loneSurrogate)
    else .ok (Char.ofNat (0x10000 + 0x400 * (n - 0xD800) + (m - 0xDC00)), c)

/-- What a one letter escape stands for. -/
def simpleEscape? (x : Char) : Option Char :=
  match x with
  | '\x22' => some '\x22'
  | '\\' => some '\\'
  | '/' => some '/'
  | 'b' => some '\x08'
  | 'f' => some '\x0c'
  | 'n' => some '\n'
  | 'r' => some '\r'
  | 't' => some '\t'
  | _ => none

/-- Reads what follows a backslash. -/
def escape (c : Cursor) : Except Fault (Char × Cursor) :=
  match c.rest with
  | [] => .error (c.fault .endInString)
  | 'u' :: _ => c.next.unicodeEscape
  | x :: _ =>
    match simpleEscape? x with
    | some y => .ok (y, c.next)
    | none => .error (c.faultAhead .badEscape)

/-- Reads up to the closing quote. The first argument bounds the characters still to come. -/
def stringBody : Nat → Cursor → Except Fault (List Char × Cursor)
  | 0, c => .error (c.fault .endInString)
  | n + 1, c =>
    match c.rest with
    | [] => .error (c.fault .endInString)
    | '\x22' :: _ => .ok ([], c.next)
    | '\\' :: _ => do
      let (x, c) ← c.next.escape
      let (xs, c) ← stringBody n c
      .ok (x :: xs, c)
    | x :: _ =>
      if x.toNat < 32 then .error (c.faultAhead .controlCharacter)
      else do
        let (xs, c) ← stringBody n c.next
        .ok (x :: xs, c)

/-- Reads a string from behind its opening quote. -/
def stringRest (c : Cursor) : Except Fault (String × Cursor) := do
  let (xs, c) ← c.stringBody (c.rest.length + 1)
  .ok (String.ofList xs, c)

/-- Steps over what follows a backslash without asking whether it names a character. -/
def skipEscape (c : Cursor) : Except Fault Cursor :=
  match c.rest with
  | [] => .error (c.fault .endInString)
  | 'u' :: _ => c.next.fourDigits.map Prod.snd
  | x :: _ => if (simpleEscape? x).isSome then .ok c.next else .error (c.faultAhead .badEscape)

def skipStringBody : Nat → Cursor → Except Fault Cursor
  | 0, c => .error (c.fault .endInString)
  | n + 1, c =>
    match c.rest with
    | [] => .error (c.fault .endInString)
    | '\x22' :: _ => .ok c.next
    | '\\' :: _ => do skipStringBody n (← c.next.skipEscape)
    | x :: _ =>
      if x.toNat < 32 then .error (c.fault .controlCharacter) else skipStringBody n c.next

/-- Steps over a string from behind its opening quote. -/
def skipString (c : Cursor) : Except Fault Cursor := c.skipStringBody (c.rest.length + 1)

end Cursor

/-! ## Numbers -/

/-- The parts of a number as written, each digit as its value. -/
structure Numeral where
  negative : Bool
  whole : List Nat
  fraction : List Nat := []
  /-- A sign that is a minus, and the digits. -/
  exponent : Option (Bool × List Nat) := none
  /-- A point or an exponent was written. -/
  isFractional : Bool := false
deriving DecidableEq, Repr

namespace Cursor

/-- Reads digits of which there must be one. -/
def someDigits (atEnd : Malformed) (c : Cursor) : Except Fault (List Nat × Cursor) :=
  match c.rest with
  | [] => .error (c.fault atEnd)
  | x :: _ => if isDigit x then .ok c.digits else .error (c.faultAhead .badNumber)

/-- Reads the digits in front of the point, with no leading zero but a single one. -/
def wholePart (atEnd : Malformed) (c : Cursor) : Except Fault (List Nat × Cursor) :=
  match c.rest with
  | '0' :: x :: _ =>
    if isDigit x then .error (c.next.faultAhead .badNumber) else .ok ([0], c.next)
  | ['0'] => .ok ([0], c.next)
  | _ => c.someDigits atEnd

/-- Reads the digits behind a point, if there is one. -/
def fractionPart (atEnd : Malformed) (c : Cursor) : Except Fault (Option (List Nat) × Cursor) :=
  match c.rest with
  | '.' :: _ => (c.next.someDigits atEnd).map fun (ds, c) => (some ds, c)
  | _ => .ok (none, c)

/-- Reads an exponent, if there is one. -/
def exponentPart (atEnd : Malformed) (c : Cursor) :
    Except Fault (Option (Bool × List Nat) × Cursor) :=
  match c.rest with
  | x :: _ =>
    if x = 'e' ∨ x = 'E' then
      let c := c.next
      let minus := c.rest.head? = some '-'
      let c := if minus ∨ c.rest.head? = some '+' then c.next else c
      (c.someDigits atEnd).map fun (ds, c) => (some (minus, ds), c)
    else .ok (none, c)
  | [] => .ok (none, c)

/-- Reads a number. `atEnd` is the reason given when the text ends where a digit must stand. -/
def numeral (atEnd : Malformed) (c : Cursor) : Except Fault (Numeral × Cursor) := do
  let negative := c.rest.head? = some '-'
  let (whole, c) ← (if negative then c.next else c).wholePart atEnd
  let (fraction, c) ← c.fractionPart atEnd
  let (exponent, c) ← c.exponentPart atEnd
  .ok (⟨negative, whole, fraction.getD [], exponent, fraction.isSome || exponent.isSome⟩, c)

end Cursor

namespace Numeral

/-- Appends digits to a natural while it stays below `2 ^ 64`; returns the digits left over. -/
def absorb (n : Nat) : List Nat → Nat × List Nat
  | [] => (n, [])
  | d :: ds => if 10 * n + d < Nat.pow 2 64 then absorb (10 * n + d) ds else (n, d :: ds)

/-- The value of exponent digits, or the number of digits that follow the one with which it
passes `2 ^ 31 - 1`. -/
def exponentValue (n : Nat) : List Nat → Except Nat Nat
  | [] => .ok n
  | d :: ds => if 10 * n + d < Nat.pow 2 31 then exponentValue (10 * n + d) ds else .error ds.length

def powerOfTen (n : Nat) : Float := Float.ofScientific 1 false n

/-- Divides by a power of ten in steps that are doubles themselves. -/
def divideDown (x : Float) (n : Nat) : Float :=
  if n ≤ 308 then x / powerOfTen n
  else if x == 0 then x
  else divideDown (x / powerOfTen 308) (n - 308)
termination_by n

/-- `n * 10 ^ e`, rounded once to turn `n` into a double and once more by the scaling. -/
def scale (n : Nat) (e : Int) : Option Float :=
  let x := n.toUInt64.toFloat
  if e < 0 then some (divideDown x e.natAbs)
  else if e ≤ 308 then
    let y := x * powerOfTen e.natAbs
    if y.isInf then none else some y
  else if x == 0 then some x else none

def signed (negative : Bool) (x : Float) : Number :=
  .double (.ofFloat (if negative then -x else x))

/-- The number a numeral stands for. Digits beyond the sixty-fourth bit do not count, and an
integer that needs them is a double. The error is the number of digits of the numeral not yet
looked at when it is found too large. -/
def value (n : Numeral) : Except Nat Number :=
  let (m, cut) := absorb 0 n.whole
  if cut = [] ∧ ¬ n.isFractional then
    if ¬ n.negative then .ok (.natural m)
    else if 0 < m ∧ m ≤ Nat.pow 2 63 then .ok (.negative m)
    else .ok (signed true m.toUInt64.toFloat)
  else
    let (m, unused) := absorb m n.fraction
    let shift : Int := cut.length - (n.fraction.length - unused.length : Nat)
    let scaled (e : Int) : Except Nat Number :=
      match scale m e with
      | some x => .ok (signed n.negative x)
      | none => .error 0
    match n.exponent with
    | none => scaled shift
    | some (minus, ds) =>
      match exponentValue 0 ds with
      | .ok e => scaled (if minus then shift - e else shift + e)
      | .error unread =>
        if m ≠ 0 ∧ ¬ minus then .error unread else .ok (signed n.negative 0)

end Numeral

/-- Reads a number and its value. A number too large is reported where that shows. -/
def Cursor.number (c : Cursor) : Except Fault (Number × Cursor) := do
  let (n, c) ← c.numeral .endInValue
  match n.value with
  | .ok v => .ok (v, c)
  | .error unread =>
    .error ⟨[], .numberTooLarge, ⟨c.position.line, c.position.column - unread⟩⟩

end SwiftCodec
