import SwiftCodec.Json.Lexeme
import SwiftCodec.Text.Blank

/-!
The words of the filter language. A string keeps its interpolated filters as token lists of their
own, and a number keeps its spelling.
-/
namespace SwiftCodec

namespace Filter

inductive Token where
  /-- A name or a keyword. -/
  | word (name : String)
  /-- A variable or label without its dollar sign. -/
  | variable (name : String)
  /-- A format with its sign, such as `@json`. -/
  | format (name : String)
  /-- A name directly behind a dot. -/
  | field (name : String)
  | number (text : String)
  | symbol (text : String)
  /-- Literal text and the filter that follows it, piece by piece, and the text at the end. -/
  | string (pieces : List (String × List Token)) (last : String)
deriving Repr, Inhabited

def isWordHead (c : Char) : Bool := c.isAlpha || c = '_'
def isWordTail (c : Char) : Bool := isWordHead c || c.isDigit

/-- Characters that make one symbol with those of their kind around them. -/
def isOperator (c : Char) : Bool := "|=!<>+-*/%".contains c

/-- Characters that are symbols of their own. -/
def isMark (c : Char) : Bool := ".,:;?()[]\x7b\x7d".contains c

/-- A name; modules may qualify it. The first argument bounds their number. -/
def nameFrom? : Nat → List Char → Option (List Char × List Char)
  | 0, _ => none
  | fuel + 1, cs =>
    if ! cs.head?.any isWordHead then none
    else
      let name := cs.takeWhile isWordTail
      match cs.dropWhile isWordTail with
      | ':' :: ':' :: rest => do
        let (inner, rest) ← nameFrom? fuel rest
        some (name ++ "::".toList ++ inner, rest)
      | rest => some (name, rest)

/-- Digits, of which there must be one. -/
def digitsFrom? (cs : List Char) : Option (List Char × List Char) :=
  let ds := cs.takeWhile Char.isDigit
  if ds.isEmpty then none else some (ds, cs.dropWhile Char.isDigit)

/-- Splits off a sign. -/
def signFrom : List Char → List Char × List Char
  | '-' :: rest => (['-'], rest)
  | '+' :: rest => (['+'], rest)
  | rest => ([], rest)

/-- Reads a number from its first digit on. -/
def numberFrom? (cs : List Char) : Option (List Char × List Char) := do
  let (whole, cs) ← digitsFrom? cs
  let (fraction, cs) ←
    match cs with
    | '.' :: rest => (digitsFrom? rest).map fun (ds, rest) => ('.' :: ds, rest)
    | cs => some ([], cs)
  let (exponent, cs) ←
    match cs with
    | x :: rest =>
      if x = 'e' ∨ x = 'E' then
        let (sign, rest) := signFrom rest
        (digitsFrom? rest).map fun (ds, rest) => (x :: sign ++ ds, rest)
      else some ([], cs)
    | [] => some ([], [])
  some (whole ++ fraction ++ exponent, cs)

/-- What an escape inside a string stands for, other than an interpolation. -/
def escapeFrom? : List Char → Option (Char × List Char)
  | [] => none
  | 'u' :: rest => do
    let n ← Cursor.fourHex? (rest.take 4)
    if n.isValidChar then some (Char.ofNat n, rest.drop 4) else none
  | c :: rest => (Cursor.simpleEscape? c).map fun x => (x, rest)

/-- What follows a comment. It ends with its line, unless an odd number of backslashes stands in
front of the line break; `odd` says whether one has just been seen. -/
def afterComment (odd : Bool) : List Char → List Char
  | [] => []
  | '\\' :: rest => afterComment (!odd) rest
  | '\x0d' :: '\n' :: rest => if odd then afterComment false rest else rest
  | '\n' :: rest => if odd then afterComment false rest else rest
  | _ :: rest => afterComment false rest

mutual
/-- Reads tokens up to the end of the text, or up to the parenthesis that closes an
interpolation. `depth` counts the parentheses that are open. -/
def tokens : Nat → Option Nat → List Char → Option (List Token × List Char)
  | 0, _, _ => none
  | fuel + 1, depth, cs =>
    match cs with
    | [] => if depth.isSome then none else some ([], [])
    | '#' :: rest => tokens fuel depth (afterComment false rest)
    | '\x22' :: rest => do
      let (pieces, last, rest) ← stringFrom fuel [] rest
      follow fuel depth (.string pieces last) rest
    | '$' :: rest => do
      let (name, rest) ← nameFrom? fuel rest
      follow fuel depth (.variable (String.ofList name)) rest
    | '@' :: rest =>
      if rest.head?.any isWordHead then
        follow fuel depth (.format (String.ofList ('@' :: rest.takeWhile isWordTail)))
          (rest.dropWhile isWordTail)
      else none
    | '.' :: '.' :: rest => follow fuel depth (.symbol "..") rest
    | '(' :: rest => follow fuel (depth.map (· + 1)) (.symbol "(") rest
    | ')' :: rest =>
      match depth with
      | some 0 => some ([], rest)
      | depth => follow fuel (depth.map (· - 1)) (.symbol ")") rest
    | c :: rest =>
      if Text.isBlank c then tokens fuel depth rest
      else if isWordHead c then do
        let (name, rest) ← nameFrom? fuel cs
        follow fuel depth (.word (String.ofList name)) rest
      else if c = '.' ∧ rest.head?.any isWordHead then
        follow fuel depth (.field (String.ofList (rest.takeWhile isWordTail)))
          (rest.dropWhile isWordTail)
      else if c.isDigit then do
        let (text, rest) ← numberFrom? cs
        follow fuel depth (.number (String.ofList text)) rest
      else if isOperator c then
        follow fuel depth (.symbol (String.ofList (cs.takeWhile isOperator)))
          (cs.dropWhile isOperator)
      else if isMark c then follow fuel depth (.symbol (String.singleton c)) rest
      else none
termination_by structural fuel => fuel

/-- Puts a token in front of the ones that follow it. -/
def follow : Nat → Option Nat → Token → List Char → Option (List Token × List Char)
  | 0, _, _, _ => none
  | fuel + 1, depth, token, cs => do
    let (rest, cs) ← tokens fuel depth cs
    some (token :: rest, cs)
termination_by structural fuel => fuel

/-- Reads a string from behind its opening quote; `text` holds its characters in reverse. -/
def stringFrom : Nat → List Char → List Char →
    Option (List (String × List Token) × String × List Char)
  | 0, _, _ => none
  | fuel + 1, text, cs =>
    match cs with
    | [] => none
    | '\x22' :: rest => some ([], String.ofList text.reverse, rest)
    | '\\' :: '(' :: rest => do
      let (inner, rest) ← tokens fuel (some 0) rest
      let (pieces, last, rest) ← stringFrom fuel [] rest
      some ((String.ofList text.reverse, inner) :: pieces, last, rest)
    | '\\' :: rest => do
      let (c, rest) ← escapeFrom? rest
      stringFrom fuel (c :: text) rest
    | c :: rest => stringFrom fuel (c :: text) rest
termination_by structural fuel => fuel
end

/-- The tokens of a filter, unless it has a character or a string that is none. -/
def tokenize (text : String) : Option (List Token) :=
  (tokens (2 * text.length + 2) none text.toList).map Prod.fst

end Filter

end SwiftCodec
