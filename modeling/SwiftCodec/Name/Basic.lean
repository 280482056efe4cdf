/-!
Names of types and fields. An identifier is a letter or underscore followed by letters, digits and
underscores, all of them ASCII; a dotted name is a sequence of identifiers joined by dots, as in
`Outer.Inner`.
-/
namespace SwiftCodec

namespace Name

def isHead (c : Char) : Bool := c.isAlpha || c = '_'
def isTail (c : Char) : Bool := isHead c || c.isDigit

def isIdentifierList : List Char → Bool
  | [] => false
  | c :: cs => isHead c && cs.all isTail

def isIdentifier (name : String) : Bool := isIdentifierList name.toList

/-- Inside a dotted name: `inside` says that the current identifier has begun. -/
def isDottedFrom (inside : Bool) : List Char → Bool
  | [] => inside
  | c :: cs =>
    if inside then
      if c = '.' then isDottedFrom false cs else isTail c && isDottedFrom true cs
    else isHead c && isDottedFrom true cs

def isDotted (name : String) : Bool := isDottedFrom false name.toList

/-- The name of a declaration inside the one named by `scope`. -/
def qualify (scope : Option String) (name : String) : String :=
  match scope with
  | none => name
  | some outer => outer ++ "." ++ name

end Name

end SwiftCodec
