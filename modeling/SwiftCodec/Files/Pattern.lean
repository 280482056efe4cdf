/-!
Patterns of names: `?` stands for any character, `*` for any sequence of them, brackets for one
character out of ranges, or out of none of them after `!`. `**` stands for any number of names and
has to be a name of its own.
-/
namespace SwiftCodec

/-- Why a text is no pattern, and the number of characters in front of the place that shows it. -/
inductive PatternError where
  | tooManyStars (position : Nat)
  | starsInName (position : Nat)
  | badRange (position : Nat)
deriving DecidableEq, Repr

def PatternError.message : PatternError → String
  | .tooManyStars p => text p "wildcards are either regular `*` or recursive `**`"
  | .starsInName p => text p "recursive wildcards must form a single path component"
  | .badRange p => text p "invalid range pattern"
where
  text (position : Nat) (reason : String) : String :=
    "Pattern syntax error near position " ++ toString position ++ ": " ++ reason

namespace Pattern

inductive Piece where
  | char (c : Char)
  | anyChar
  | anySequence
  | anyNames
  /-- A character in one of the ranges, or in none of them. -/
  | oneOf (ranges : List (Char × Char)) (negated : Bool)
deriving DecidableEq, Repr

/-- The ranges between brackets; a character of its own is a range of one. -/
def ranges : List Char → List (Char × Char)
  | a :: '-' :: b :: rest => (a, b) :: ranges rest
  | a :: rest => (a, a) :: ranges rest
  | [] => []

/-- Reads ranges from behind their opening bracket. The first character between the brackets may
be a closing bracket itself. Gives the piece, the number of characters taken, and the rest. -/
def bracketed? (cs : List Char) : Option (Piece × Nat × List Char) :=
  let close (negated : Bool) (first : Char) (cs : List Char) : Option (Piece × Nat × List Char) :=
    let inside := cs.takeWhile (· ≠ ']')
    match cs.dropWhile (· ≠ ']') with
    | [] => none
    | _ :: rest =>
      some (.oneOf (ranges (first :: inside)) negated,
        inside.length + (if negated then 3 else 2), rest)
  match cs with
  | '!' :: first :: rest => close true first rest
  | '!' :: [] => none
  | first :: rest => close false first rest
  | [] => none

/-- Reads pieces behind `position` characters of which `before` is the last. `fuel` bounds the
number of pieces. -/
def pieces : Nat → Nat → Option Char → List Char → Except PatternError (List Piece)
  | 0, _, _, _ => .ok []
  | _ + 1, _, _, [] => .ok []
  | fuel + 1, position, before, c :: rest =>
    match c with
    | '?' => (pieces fuel (position + 1) (some c) rest).map (.anyChar :: ·)
    | '*' =>
      match rest with
      | '*' :: '*' :: _ => .error (.tooManyStars (position + 2))
      | '*' :: rest =>
        if before.any (· ≠ '/') then .error (.starsInName (position - 1))
        else
          match rest with
          | [] => .ok [.anyNames]
          | '/' :: rest =>
            (pieces fuel (position + 3) (some '/') rest).map (.anyNames :: ·)
          | _ => .error (.starsInName (position + 2))
      | rest => (pieces fuel (position + 1) (some c) rest).map (.anySequence :: ·)
    | '[' =>
      match bracketed? rest with
      | none => .error (.badRange position)
      | some (piece, count, rest) =>
        (pieces fuel (position + 1 + count) (some ']') rest).map (piece :: ·)
    | c => (pieces fuel (position + 1) (some c) rest).map (.char c :: ·)

def parse (text : String) : Except PatternError (List Piece) :=
  pieces text.length 0 none text.toList

/-- The name a pattern without wildcards stands for. -/
def literal? : List Piece → Option (List Char)
  | [] => some []
  | .char c :: rest => (literal? rest).map (c :: ·)
  | _ => none

/-- Whether some text behind a sequence, or the sequence itself, has a property. -/
def anySuffix (p : List Char → Bool) : List Char → Bool
  | [] => p []
  | c :: cs => p (c :: cs) || anySuffix p cs

def matchesChars : List Piece → List Char → Bool
  | [], cs => cs.isEmpty
  | .char c :: ps, cs => cs.head? = some c && matchesChars ps cs.tail
  | .anyChar :: ps, cs => ! cs.isEmpty && matchesChars ps cs.tail
  | .oneOf rs negated :: ps, cs =>
    (cs.head?.any fun c => (rs.any fun (a, b) => a ≤ c && c ≤ b) != negated) &&
      matchesChars ps cs.tail
  | .anySequence :: ps, cs => anySuffix (matchesChars ps) cs
  | .anyNames :: ps, cs => anySuffix (matchesChars ps) cs

def fits (ps : List Piece) (name : String) : Bool := matchesChars ps name.toList

end Pattern

end SwiftCodec
