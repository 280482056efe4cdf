import SwiftCodec.Json.Basic

/-!
A place in a text being read. Lines are counted from one; the column is the number of bytes taken
from the current line, so a line break takes it back to zero.
-/
namespace SwiftCodec

structure Position where
  line : Nat
  column : Nat
deriving DecidableEq, Repr, Inhabited

namespace Position

def start : Position := ⟨1, 0⟩

/-- The position after a whole character. -/
def after (p : Position) (c : Char) : Position :=
  if c = '\n' then ⟨p.line + 1, 0⟩ else ⟨p.line, p.column + c.utf8Size⟩

/-- The position after the first byte of a character. -/
def afterByte (p : Position) (c : Char) : Position :=
  if c = '\n' then ⟨p.line + 1, 0⟩ else ⟨p.line, p.column + 1⟩

/-- The position after a number of bytes, which may end inside a character. -/
def afterBytes (p : Position) : Nat → List Char → Position
  | _, [] => p
  | n, c :: cs =>
    if n = 0 then p
    else if c.utf8Size ≤ n then (p.after c).afterBytes (n - c.utf8Size) cs
    else ⟨p.line, p.column + n⟩

end Position

/-- What is left of a text, and where that begins. -/
structure Cursor where
  rest : List Char
  position : Position
deriving DecidableEq, Repr, Inhabited

namespace Cursor

def ofString (text : String) : Cursor := ⟨text.toList, .start⟩

/-- Steps over one character. -/
def next (c : Cursor) : Cursor :=
  match c.rest with
  | [] => c
  | x :: xs => ⟨xs, c.position.after x⟩

/-- The position one byte ahead, or the end of the text. -/
def ahead (c : Cursor) : Position :=
  match c.rest with
  | [] => c.position
  | x :: _ => c.position.afterByte x

def isBlank (c : Char) : Bool := c = ' ' || c = '\n' || c = '\t' || c = '\r'

def skipBlanksFrom : List Char → Position → Cursor
  | [], p => ⟨[], p⟩
  | x :: xs, p => if isBlank x then skipBlanksFrom xs (p.after x) else ⟨x :: xs, p⟩

/-- Steps over blanks, tabs and line breaks. -/
def skipBlanks (c : Cursor) : Cursor := skipBlanksFrom c.rest c.position

def isDigit (c : Char) : Bool := '0' ≤ c && c ≤ '9'

/-- The digits that come next, and the place after them. -/
def digits (c : Cursor) : List Nat × Cursor :=
  let ds := c.rest.takeWhile isDigit
  (ds.map fun d => d.toNat - 48,
    ⟨c.rest.dropWhile isDigit, ⟨c.position.line, c.position.column + ds.length⟩⟩)

end Cursor

/-- Why a text is not JSON. -/
inductive Malformed where
  | endInList
  | endInObject
  | endInString
  | endInValue
  | expectedColon
  | expectedListEnd
  | expectedObjectEnd
  | expectedLiteral
  | expectedValue
  | badEscape
  | badNumber
  | numberTooLarge
  | loneSurrogate
  | unfinishedSurrogate
  | controlCharacter
  | keyNotString
  | trailingComma
  | trailingText
  | tooDeep
deriving DecidableEq, Repr

def Malformed.message : Malformed → String
  | .endInList => "EOF while parsing a list"
  | .endInObject => "EOF while parsing an object"
  | .endInString => "EOF while parsing a string"
  | .endInValue => "EOF while parsing a value"
  | .expectedColon => "expected `:`"
  | .expectedListEnd => "expected `,` or `]`"
  | .expectedObjectEnd => "expected `,` or `\x7d`"
  | .expectedLiteral => "expected ident"
  | .expectedValue => "expected value"
  | .badEscape => "invalid escape"
  | .badNumber => "invalid number"
  | .numberTooLarge => "number out of range"
  | .loneSurrogate => "lone leading surrogate in hex escape"
  | .unfinishedSurrogate => "unexpected end of hex escape"
  | .controlCharacter => "control character (\\u0000-\\u001F) found while parsing a string"
  | .keyNotString => "key must be a string"
  | .trailingComma => "trailing comma"
  | .trailingText => "trailing characters"
  | .tooDeep => "recursion limit exceeded"

/-- One step down into a document. `unread` stands for a key that could not be read. -/
inductive PathStep where
  | key (name : String)
  | index (i : Nat)
  | unread
deriving DecidableEq, Repr

/-- A place where a text stops being JSON, with the way down to it. -/
structure Fault where
  path : List PathStep := []
  reason : Malformed
  position : Position
deriving DecidableEq, Repr

def Fault.under (step : PathStep) (f : Fault) : Fault := { f with path := step :: f.path }

/-- The reason and the position, without the path. -/
def Fault.message (f : Fault) : String :=
  f.reason.message ++ " at line " ++ toString f.position.line ++ " column " ++
    toString f.position.column

namespace Cursor

/-- A fault at the current place. -/
def fault (c : Cursor) (reason : Malformed) : Fault := ⟨[], reason, c.position⟩

/-- A fault of the next byte, counted as consumed. -/
def faultAhead (c : Cursor) (reason : Malformed) : Fault := ⟨[], reason, c.ahead⟩

end Cursor

end SwiftCodec
