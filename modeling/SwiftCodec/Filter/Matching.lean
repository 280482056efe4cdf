import SwiftCodec.Filter.Outputs
import SwiftCodec.Regex.Parser
import SwiftCodec.Regex.Search

/-!
Regular expressions in filters: the matches in a text, and the text between them, as values.
-/
namespace SwiftCodec

namespace Filter

/-- How a text is searched, by letters. -/
structure Search where
  /-- All matches count, not only the first. -/
  isGlobal : Bool := false
  /-- Empty matches do not count. -/
  skipsEmpty : Bool := false
  flags : Regex.Flags := {}

namespace Search

def set (s : Search) (letter : Char) : Option Search :=
  match letter with
  | 'g' => some { s with isGlobal := true }
  | 'n' => some { s with skipsEmpty := true }
  | 'i' => some { s with flags := { s.flags with ignoresCase := true } }
  | 'x' => some { s with flags := { s.flags with isSpaced := true } }
  | 's' => some { s with flags := { s.flags with pointTakesAll := true } }
  | 'm' => some { s with flags := { s.flags with byLine := true } }
  | 'l' => some { s with flags := { s.flags with isLazy := true } }
  | 'p' => some { s with flags := { s.flags with pointTakesAll := true, byLine := true } }
  | _ => none

def ofLetters (letters : String) : Except Stop Search :=
  letters.toList.foldlM (fun s c =>
    match s.set c with
    | some s => .ok s
    | none => failure ("invalid regex flag: " ++ letters)) {}

/-- The matches that count. -/
def select (s : Search) (ms : List Regex.Match) : List Regex.Match :=
  let ms := if s.skipsEmpty then ms.filter fun m => ! isEmpty m else ms
  if s.isGlobal then ms else ms.take 1
where
  isEmpty (m : Regex.Match) : Bool := m.head?.any fun span => span.any fun (a, b) => a == b

end Search

def excerpt (text : List Char) (start stop : Nat) : Value :=
  .string (String.ofList ((text.take stop).drop start))

/-- What a match or a group of it says: where it is, its text, and its name if it has one. -/
def spanValue (text : List Char) (names : List (Nat × String)) (number : Nat)
    (span : Nat × Nat) : Value :=
  let name := (names.lookup number).toList.map fun name => ("name", Value.string name)
  .object ([("offset", .ofNat span.1), ("length", .ofNat (span.2 - span.1)),
    ("string", excerpt text span.1 span.2)] ++ name)

/-- A match as an array: the whole first, then the groups that took part in it. -/
def matchValue (text : List Char) (names : List (Nat × String)) (m : Regex.Match) : Value :=
  .array ((m.zipIdx).filterMap fun (span?, number) => span?.map (spanValue text names number))

/-- The texts in front of, between and behind matches, with or without the matches. -/
def between (text : List Char) (value : Regex.Match → Option Value) :
    Nat → List Regex.Match → List Value
  | start, [] => [excerpt text start text.length]
  | start, m :: rest =>
    let (a, b) := (m.head?.bind id).getD (start, start)
    excerpt text start a :: (value m).toList ++ between text value b rest

/-- Searches a text. The result has the matches, the texts between them, or both. -/
def matching (withMatches withBetween : Bool) (v regex letters : Value) : Result :=
  match v, regex, letters with
  | .string s, .string r, .string letters => do
    let search ← Search.ofLetters letters
    let text := s.toList
    let found := (Regex.parse search.flags r).bind fun p =>
      (Regex.matches? p.regex p.groups text).map fun ms => (p.names, ms)
    match found with
    | none => failure ("invalid regex: " ++ r)
    | some (names, ms) =>
      let ms := search.select ms
      let value := matchValue text names
      .ok (.array (
        if withBetween then
          between text (fun m => if withMatches then some (value m) else none) 0 ms
        else ms.map value))
  | _, _, .string _ => unfit (match v with | .string _ => regex | v => v) "string"
  | _, _, letters => unfit letters "string"

end Filter

end SwiftCodec
