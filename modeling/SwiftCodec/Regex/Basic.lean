/-!
Regular expressions over characters. Classes such as the digits and the ends of words look at
ASCII alone.
-/
namespace SwiftCodec

namespace Regex

/-- Characters as ranges of code points, ends included, in any order. -/
abbrev Ranges := List (Nat × Nat)

namespace Ranges

def contains (rs : Ranges) (c : Char) : Bool :=
  rs.any fun (a, b) => a ≤ c.toNat && c.toNat ≤ b

def single (c : Char) : Ranges := [(c.toNat, c.toNat)]

/-- What sorted ranges leave out from a code point on. -/
def gaps (start : Nat) : Ranges → Ranges
  | [] => if start ≤ 0x10ffff then [(start, 0x10ffff)] else []
  | (a, b) :: rest =>
    (if start < a then [(start, a - 1)] else []) ++ gaps (max start (b + 1)) rest

def complement (rs : Ranges) : Ranges := gaps 0 (rs.mergeSort fun r s => r.1 ≤ s.1)

/-- The common part of a range with another one, moved by a distance. -/
def shifted (low high : Nat) (distance : Int) (r : Nat × Nat) : Ranges :=
  let a := max r.1 low
  let b := min r.2 high
  if a ≤ b then [((a + distance).toNat, (b + distance).toNat)] else []

/-- Adds the other case of each letter. -/
def withCases (rs : Ranges) : Ranges :=
  rs ++ rs.flatMap (shifted 65 90 32) ++ rs.flatMap (shifted 97 122 (-32))

def digits : Ranges := [(48, 57)]
def blanks : Ranges := [(9, 13), (32, 32)]
def letters : Ranges := [(65, 90), (97, 122)]
def wordChars : Ranges := [(48, 57), (65, 90), (95, 95), (97, 122)]

/-- The classes that go by a name. -/
def named : List (String × Ranges) :=
  [("alnum", digits ++ letters), ("alpha", letters), ("ascii", [(0, 127)]),
    ("blank", [(9, 9), (32, 32)]), ("cntrl", [(0, 31), (127, 127)]), ("digit", digits),
    ("graph", [(33, 126)]), ("lower", [(97, 122)]), ("print", [(32, 126)]),
    ("punct", [(33, 47), (58, 64), (91, 96), (123, 126)]), ("space", blanks),
    ("upper", [(65, 90)]), ("word", wordChars), ("xdigit", [(48, 57), (65, 70), (97, 102)])]

end Ranges

/-- A place between two characters, either of which is missing at an end of the text. -/
structure Place where
  position : Nat
  before : Option Char
  behind : Option Char

/-- What can be asked about a place. -/
inductive Assertion where
  | textStart
  | textEnd
  | lineStart
  | lineEnd
  /-- The same for lines that end in a carriage return, a line feed or both. -/
  | anyLineStart
  | anyLineEnd
  | wordEdge
  | noWordEdge
  | wordStart
  | wordEnd
  /-- Half of an edge: no word on the near side of it. -/
  | noWordBefore
  | noWordBehind
deriving DecidableEq, Repr

def Assertion.holds (p : Place) (a : Assertion) : Bool :=
  let before := p.before.any Ranges.wordChars.contains
  let behind := p.behind.any Ranges.wordChars.contains
  match a with
  | .textStart => p.before.isNone
  | .textEnd => p.behind.isNone
  | .lineStart => p.before.all (· = '\n')
  | .lineEnd => p.behind.all (· = '\n')
  | .anyLineStart =>
    p.before.all (· = '\n') || (p.before = some '\x0d' && p.behind != some '\n')
  | .anyLineEnd =>
    p.behind.all (· = '\x0d') || (p.behind = some '\n' && p.before != some '\x0d')
  | .wordEdge => before != behind
  | .noWordEdge => before == behind
  | .wordStart => !before && behind
  | .wordEnd => before && !behind
  | .noWordBefore => !before
  | .noWordBehind => !behind

end Regex

/-- A regular expression. Of several ways to match, the first alternative is preferred, and more
repetitions where they are greedy. -/
inductive Regex where
  | empty
  | one (chars : Regex.Ranges)
  | look (assertion : Regex.Assertion)
  | group (number : Nat) (body : Regex)
  | sequence (first second : Regex)
  | choice (first second : Regex)
  | repetition (least : Nat) (most : Option Nat) (isGreedy : Bool) (body : Regex)
deriving Repr, Inhabited

namespace Regex

def ofList (rs : List Regex) : Regex := rs.foldr sequence empty

/-- Whether the empty text matches, assertions aside. -/
def isNullable : Regex → Bool
  | .empty => true
  | .one _ => false
  | .look _ => true
  | .group _ body => body.isNullable
  | .sequence r s => r.isNullable && s.isNullable
  | .choice r s => r.isNullable || s.isNullable
  | .repetition least _ _ body => least = 0 || body.isNullable

end Regex

end SwiftCodec
