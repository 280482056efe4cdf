import SwiftCodec.Filter.Outputs

/-!
Formats of texts: markup, addresses, rows of tables, words of a shell, and base 64.
-/
namespace SwiftCodec

namespace Filter

namespace Format

def escaped (table : List (Char × String)) (s : String) : String :=
  String.join (s.toList.map fun c => (table.lookup c).getD (String.singleton c))

def html (v : Value) : String :=
  escaped [('<', "&lt;"), ('>', "&gt;"), ('&', "&amp;"), ('\x27', "&apos;"), ('\x22', "&quot;")]
    v.plainText

def percent (b : UInt8) : String :=
  let digit (n : Nat) : String := String.singleton (Json.hexDigit n).toUpper
  "%" ++ digit (b.toNat / 16) ++ digit (b.toNat % 16)

def uri (v : Value) : String :=
  String.join (v.plainText.toUTF8.toList.map fun b =>
    let c := Char.ofNat b.toNat
    if c.isAlphanum ∨ c ∈ ['-', '_', '.', '~'] then String.singleton c else percent b)

/-! ## Rows -/

/-- One cell of a row; strings go through a format, and null has a text of its own. -/
def cell (ofString : String → String) (ofNull : String) : Value → Result
  | .string s => .ok (.string (ofString s))
  | .null => .ok (.string ofNull)
  | .array items => unfit (.array items) "string"
  | .object members => unfit (.object members) "string"
  | v => .ok (.string v.text)

/-- A row of cells with a separator between them. -/
def row (separator : String) (ofString : String → String) (ofNull : String) : Value → Result
  | .array items => do
    let cells ← items.mapM (cell ofString ofNull)
    .ok (.string (separator.intercalate (cells.map Value.plainText)))
  | v => unfit v "array"

def csv : Value → Result :=
  row "," (fun s => "\"" ++ escaped [('\x22', "\"\"")] s ++ "\"") ""

def tsv : Value → Result :=
  row "\t" (escaped [('\t', "\\t"), ('\n', "\\n"), ('\x0d', "\\r"), ('\\', "\\\\"),
    ('\x00', "\\0")]) ""

/-- Words of a shell; a value that is no array is the only word. -/
def shell (v : Value) : Result :=
  let quoted (s : String) : String := "'" ++ escaped [('\x27', "'\\''")] s ++ "'"
  match v with
  | .array items => row " " quoted "null" (.array items)
  | v => row " " quoted "null" (.array [v])

/-! ## Base 64 -/

def base64Digit (n : Nat) : Char :=
  if n < 26 then Char.ofNat (65 + n)
  else if n < 52 then Char.ofNat (71 + n)
  else if n < 62 then Char.ofNat (n - 4)
  else if n = 62 then '+'
  else '/'

def base64Digits : List UInt8 → List Char
  | [] => []
  | [a] =>
    let n := a.toNat * 16
    [base64Digit (n / 64), base64Digit (n % 64), '=', '=']
  | [a, b] =>
    let n := (a.toNat * 256 + b.toNat) * 4
    [base64Digit (n / 4096), base64Digit (n / 64 % 64), base64Digit (n % 64), '=']
  | a :: b :: c :: rest =>
    let n := (a.toNat * 256 + b.toNat) * 256 + c.toNat
    [base64Digit (n / 262144), base64Digit (n / 4096 % 64), base64Digit (n / 64 % 64),
      base64Digit (n % 64)] ++ base64Digits rest

def base64 (v : Value) : String := String.ofList (base64Digits v.plainText.toUTF8.toList)

/-- The six bits that a digit stands for. -/
def base64Value? (c : Char) : Option Nat :=
  if c.isUpper then some (c.toNat - 65)
  else if c.isLower then some (c.toNat - 71)
  else if c.isDigit then some (c.toNat + 4)
  else if c = '+' then some 62
  else if c = '/' then some 63
  else none

/-- The bytes that digits stand for. The last group is filled up by signs, and its bits beyond the
last byte are zero. -/
def base64Bytes? : List Char → Option (List UInt8)
  | [] => some []
  | [a, b, '=', '='] => do
    let a ← base64Value? a
    let b ← base64Value? b
    if b % 16 = 0 then some [.ofNat (a * 4 + b / 16)] else none
  | [a, b, c, '='] => do
    let a ← base64Value? a
    let b ← base64Value? b
    let c ← base64Value? c
    if c % 4 = 0 then some [.ofNat (a * 4 + b / 16), .ofNat (b % 16 * 16 + c / 4)] else none
  | a :: b :: c :: d :: rest => do
    let a ← base64Value? a
    let b ← base64Value? b
    let c ← base64Value? c
    let d ← base64Value? d
    let bytes ← base64Bytes? rest
    some (.ofNat (a * 4 + b / 16) :: .ofNat (b % 16 * 16 + c / 4) ::
      .ofNat (c % 4 * 64 + d) :: bytes)
  | _ => none

def fromBase64 (v : Value) : Result :=
  match (base64Bytes? v.plainText.toList).bind fun bytes => String.fromUTF8? ⟨bytes.toArray⟩ with
  | some s => .ok (.string s)
  | none => unfit v "base 64"

end Format

end Filter

end SwiftCodec
