import SwiftCodec.Json.Basic
import SwiftCodec.Number.Shortest

/-!
The two text forms of a JSON value: compact, without blanks, and pretty, with an indentation of
two and a blank after each colon. Only quotes, backslashes and control characters are escaped.
-/
namespace SwiftCodec

def Number.text : Number → String
  | .natural n => toString n
  | .negative n => "-" ++ toString n
  | .double x => if x.isFinite then x.write .document else "null"

namespace Json

def hexDigit (n : Nat) : Char :=
  if n < 10 then Char.ofNat (48 + n) else Char.ofNat (87 + n)

/-- The text of one character inside a string. -/
def escapeChar (c : Char) : List Char :=
  match c with
  | '\x22' => ['\\', '\x22']
  | '\\' => ['\\', '\\']
  | '\x08' => ['\\', 'b']
  | '\x09' => ['\\', 't']
  | '\x0a' => ['\\', 'n']
  | '\x0c' => ['\\', 'f']
  | '\x0d' => ['\\', 'r']
  | c =>
    if c.toNat < 32 then ['\\', 'u', '0', '0', hexDigit (c.toNat / 16), hexDigit (c.toNat % 16)]
    else [c]

/-- A string in quotes. -/
def quote (s : String) : String :=
  String.ofList ('\x22' :: s.toList.flatMap escapeChar ++ ['\x22'])

mutual
def compact : Json → String
  | .null => "null"
  | .bool true => "true"
  | .bool false => "false"
  | .number n => n.text
  | .string s => quote s
  | .array [] => "[]"
  | .array (j :: rest) => "[" ++ compact j ++ compactItems rest ++ "]"
  | .object [] => "\x7b\x7d"
  | .object ((k, j) :: rest) =>
    "\x7b" ++ quote k ++ ":" ++ compact j ++ compactMembers rest ++ "\x7d"
termination_by structural j => j
def compactItems : List Json → String
  | [] => ""
  | j :: rest => "," ++ compact j ++ compactItems rest
termination_by structural js => js
def compactMembers : List (String × Json) → String
  | [] => ""
  | (k, j) :: rest => "," ++ quote k ++ ":" ++ compact j ++ compactMembers rest
termination_by structural ms => ms
end

/-- A line break followed by the blanks of a nesting level. -/
def lineBreak (level : Nat) : String :=
  String.ofList ('\n' :: List.replicate (2 * level) ' ')

mutual
/-- The pretty form of a value that stands at a nesting level. -/
def prettyAt (level : Nat) : Json → String
  | .array [] => "[]"
  | .array (j :: rest) =>
    "[" ++ lineBreak (level + 1) ++ prettyAt (level + 1) j ++ prettyItems level rest ++
      lineBreak level ++ "]"
  | .object [] => "\x7b\x7d"
  | .object ((k, j) :: rest) =>
    "\x7b" ++ lineBreak (level + 1) ++ quote k ++ ": " ++ prettyAt (level + 1) j ++
      prettyMembers level rest ++ lineBreak level ++ "\x7d"
  | .null => "null"
  | .bool true => "true"
  | .bool false => "false"
  | .number n => n.text
  | .string s => quote s
termination_by structural j => j
def prettyItems (level : Nat) : List Json → String
  | [] => ""
  | j :: rest =>
    "," ++ lineBreak (level + 1) ++ prettyAt (level + 1) j ++ prettyItems level rest
termination_by structural js => js
def prettyMembers (level : Nat) : List (String × Json) → String
  | [] => ""
  | (k, j) :: rest =>
    "," ++ lineBreak (level + 1) ++ quote k ++ ": " ++ prettyAt (level + 1) j ++
      prettyMembers level rest
termination_by structural ms => ms
end

def pretty (j : Json) : String := prettyAt 0 j

end Json

end SwiftCodec
