import SwiftCodec.Regex.Basic

/-!
Reading regular expressions. The first argument of a reader bounds its recursion; each call takes
a character.
-/
namespace SwiftCodec

namespace Regex

/-- How characters are read and matched from a place in an expression on. -/
structure Flags where
  ignoresCase : Bool := false
  /-- Assertions about the ends of the text are about lines instead. -/
  byLine : Bool := false
  /-- The point matches line breaks too. -/
  pointTakesAll : Bool := false
  /-- A repetition is greedy only if marked. -/
  isLazy : Bool := false
  /-- A carriage return ends a line too. -/
  returnEndsLine : Bool := false
  /-- Blanks and comments do not count. -/
  isSpaced : Bool := false
deriving DecidableEq, Repr

/-- What is known behind the part of an expression that has been read. -/
structure Context where
  flags : Flags
  groups : Nat := 0
  names : List (Nat × String) := []

/-- Groups that may be open at once. -/
def nestingLimit : Nat := 50

def skipSpace (flags : Flags) : Nat → List Char → List Char
  | 0, cs => cs
  | fuel + 1, cs =>
    if ! flags.isSpaced then cs
    else
      match cs with
      | '#' :: rest => skipSpace flags fuel (rest.dropWhile (· ≠ '\n'))
      | c :: rest => if c.isWhitespace then skipSpace flags fuel rest else cs
      | [] => []

/-! ## Single characters -/

def hexValue? (c : Char) : Option Nat :=
  if c.isDigit then some (c.toNat - 48)
  else if 'a' ≤ c ∧ c ≤ 'f' then some (c.toNat - 87)
  else if 'A' ≤ c ∧ c ≤ 'F' then some (c.toNat - 55)
  else none

def charOfHex? (digits : List Char) : Option Char := do
  if digits.isEmpty then none
  else
    let ds ← digits.mapM hexValue?
    let n := ds.foldl (fun n d => 16 * n + d) 0
    if n.isValidChar then some (Char.ofNat n) else none

/-- A character by its code point, from behind the letter that says how many digits it has
without braces. -/
def hexFrom? (count : Nat) : List Char → Option (Char × List Char)
  | '\x7b' :: rest => do
    let c ← charOfHex? (rest.takeWhile (· ≠ '\x7d'))
    match rest.dropWhile (· ≠ '\x7d') with
    | _ :: rest => some (c, rest)
    | [] => none
  | cs =>
    if cs.length < count then none
    else (charOfHex? (cs.take count)).map fun c => (c, cs.drop count)

/-- What an escape stands for. -/
inductive Escape where
  | char (c : Char)
  | ranges (rs : Ranges)
  | look (a : Assertion)

def classOf? (c : Char) : Option Ranges :=
  match c with
  | 'd' => some .digits
  | 's' => some .blanks
  | 'w' => some .wordChars
  | 'D' => some Ranges.digits.complement
  | 'S' => some Ranges.blanks.complement
  | 'W' => some Ranges.wordChars.complement
  | _ => none

def controlOf? (c : Char) : Option Char :=
  match c with
  | 'a' => some '\x07'
  | 'f' => some '\x0c'
  | 't' => some '\x09'
  | 'n' => some '\x0a'
  | 'r' => some '\x0d'
  | 'v' => some '\x0b'
  | _ => none

def assertionOf? (c : Char) : Option Assertion :=
  match c with
  | 'A' => some .textStart
  | 'z' => some .textEnd
  | 'b' => some .wordEdge
  | 'B' => some .noWordEdge
  | '<' => some .wordStart
  | '>' => some .wordEnd
  | _ => none

/-- The edges of words that have a name in braces. -/
def edgesOfWords : List (String × Assertion) :=
  [("\x7bstart\x7d", .wordStart), ("\x7bend\x7d", .wordEnd),
    ("\x7bstart-half\x7d", .noWordBefore), ("\x7bend-half\x7d", .noWordBehind)]

/-- Reads an escape from behind its backslash. -/
def escapeFrom? : List Char → Option (Escape × List Char)
  | [] => none
  | 'x' :: rest => (hexFrom? 2 rest).map fun (c, rest) => (.char c, rest)
  | 'u' :: rest => (hexFrom? 4 rest).map fun (c, rest) => (.char c, rest)
  | 'U' :: rest => (hexFrom? 8 rest).map fun (c, rest) => (.char c, rest)
  | c :: rest =>
    let edge? := edgesOfWords.find? fun (name, _) => c = 'b' && name.toList.isPrefixOf rest
    match edge?, classOf? c, controlOf? c, assertionOf? c with
    | some (name, a), _, _, _ => some (.look a, rest.drop name.length)
    | none, some rs, _, _ => some (.ranges rs, rest)
    | none, none, some x, _ => some (.char x, rest)
    | none, none, none, some a => some (.look a, rest)
    | none, none, none, none =>
      if c.toNat < 128 ∧ ¬ c.isAlphanum then some (.char c, rest) else none

/-! ## Classes in brackets -/

/-- A class by its name between colons, from behind its bracket. -/
def namedFrom? : List Char → Option (Ranges × List Char)
  | ':' :: rest => do
    let isNegated := rest.head? = some '^'
    let rest := if isNegated then rest.drop 1 else rest
    let rs ← Ranges.named.lookup (String.ofList (rest.takeWhile (· ≠ ':')))
    match rest.dropWhile (· ≠ ':') with
    | ':' :: ']' :: rest => some (if isNegated then rs.complement else rs, rest)
    | _ => none
  | _ => none

/-- One item of a class: a character, or ranges that no range can begin or end with. -/
def itemFrom? : List Char → Option (Escape × List Char)
  | '\\' :: rest => escapeFrom? rest
  | c :: rest => some (.char c, rest)
  | [] => none

/-- Reads the items of a class up to its closing bracket. -/
def itemsFrom? (flags : Flags) : Nat → List Char → Option (Ranges × List Char)
  | 0, _ => none
  | fuel + 1, cs => do
    let more (rs : Ranges) (cs : List Char) : Option (Ranges × List Char) :=
      (itemsFrom? flags fuel cs).map fun (others, cs) => (rs ++ others, cs)
    match skipSpace flags fuel cs with
    | ']' :: rest => some ([], rest)
    | '[' :: rest =>
      let (rs, rest) ← namedFrom? rest
      more rs rest
    | '&' :: '&' :: _ => none
    | '-' :: '-' :: _ => none
    | '~' :: '~' :: _ => none
    | cs =>
      let (item, rest) ← itemFrom? cs
      let rest := skipSpace flags fuel rest
      let behind := skipSpace flags fuel (rest.drop 1)
      let isRange : Bool :=
        rest.head? == some '-' && behind.head? != some ']' && behind.head? != some '-'
      match item, isRange with
      | .look _, _ => none
      | .char a, true =>
        let (last, rest) ← itemFrom? behind
        match last with
        | .char b => if a ≤ b then more [(a.toNat, b.toNat)] rest else none
        | _ => none
      | .ranges _, true => none
      | .char a, false => more (.single a) rest
      | .ranges rs, false => more rs rest

/-- Reads a class from behind its opening bracket. Dashes at its beginning, or else a closing
bracket, stand for themselves. -/
def classFrom? (flags : Flags) (fuel : Nat) (cs : List Char) :
    Option (Ranges × List Char) := do
  let cs := skipSpace flags fuel cs
  let isNegated := cs.head? = some '^'
  let cs := skipSpace flags fuel (if isNegated then cs.drop 1 else cs)
  let dashes := cs.takeWhile (· = '-')
  let cs := cs.dropWhile (· = '-')
  let (own, cs) : Ranges × List Char :=
    if ! dashes.isEmpty then (.single '-', cs)
    else if cs.head? = some ']' then (.single ']', cs.drop 1)
    else ([], cs)
  let (others, cs) ← itemsFrom? flags fuel cs
  let rs := if flags.ignoresCase then Ranges.withCases (own ++ others) else own ++ others
  some (if isNegated then rs.complement else rs, cs)

/-! ## Repetitions -/

/-- A sign behind a repetition that turns its greediness round. -/
def greedFrom (flags : Flags) (cs : List Char) : Bool × List Char :=
  match cs with
  | '?' :: rest => (flags.isLazy, rest)
  | cs => (! flags.isLazy, cs)

def countFrom? (flags : Flags) (fuel : Nat) (cs : List Char) : Option (Nat × List Char) :=
  let cs := skipSpace flags fuel cs
  let ds := cs.takeWhile Char.isDigit
  if ds.isEmpty ∨ 9 < ds.length then none
  else some (Nat.ofDigitChars 10 ds 0, skipSpace flags fuel (cs.dropWhile Char.isDigit))

/-- Reads the bounds of a repetition from behind the opening brace. -/
def boundsFrom? (flags : Flags) (fuel : Nat) (cs : List Char) :
    Option (Nat × Option Nat × List Char) := do
  let (least, cs) ← countFrom? flags fuel cs
  match cs with
  | '\x7d' :: rest => some (least, some least, rest)
  | ',' :: rest =>
    match skipSpace flags fuel rest with
    | '\x7d' :: rest => some (least, none, rest)
    | rest =>
      let (most, rest) ← countFrom? flags fuel rest
      match rest with
      | '\x7d' :: rest => if least ≤ most then some (least, some most, rest) else none
      | _ => none
  | _ => none

/-! ## Flags and groups -/

def Flags.set (flags : Flags) (value : Bool) (letter : Char) : Option Flags :=
  match letter with
  | 'i' => some { flags with ignoresCase := value }
  | 'm' => some { flags with byLine := value }
  | 's' => some { flags with pointTakesAll := value }
  | 'U' => some { flags with isLazy := value }
  | 'R' => some { flags with returnEndsLine := value }
  | 'x' => some { flags with isSpaced := value }
  | _ => none

/-- Reads letters that turn flags on, and behind a minus off. No letter is repeated. -/
def flagsFrom? (flags : Flags) : Bool → List Char → List Char → Option (Flags × List Char)
  | _, _, [] => none
  | value, seen, c :: rest =>
    if c = ')' ∨ c = ':' then
      if seen.head? = some '-' then none else some (flags, c :: rest)
    else if c ∈ seen then none
    else if c = '-' then flagsFrom? flags false ('-' :: seen) rest
    else
      match flags.set value c with
      | some flags => flagsFrom? flags value (c :: seen) rest
      | none => none

/-- Reads the name of a group from behind its opening bracket. -/
def groupNameFrom? (cs : List Char) : Option (String × List Char) :=
  let isHead (c : Char) : Bool := c = '_' || c.isAlpha
  let isTail (c : Char) : Bool := isHead c || c.isDigit || c = '.' || c = '[' || c = ']'
  let name := cs.takeWhile (· ≠ '>')
  if name.head?.any isHead && name.all isTail && name.length < cs.length then
    some (String.ofList name, cs.drop (name.length + 1))
  else none

/-- A literal character. -/
def Flags.char (flags : Flags) (c : Char) : Regex :=
  .one (if flags.ignoresCase then Ranges.withCases (.single c) else .single c)

def Flags.point (flags : Flags) : Regex :=
  if flags.pointTakesAll then .one (Ranges.complement [])
  else if flags.returnEndsLine then .one (Ranges.complement [(10, 10), (13, 13)])
  else .one (Ranges.complement [(10, 10)])

def Flags.start (flags : Flags) : Regex :=
  if ! flags.byLine then .look .textStart
  else if flags.returnEndsLine then .look .anyLineStart
  else .look .lineStart

def Flags.stop (flags : Flags) : Regex :=
  if ! flags.byLine then .look .textEnd
  else if flags.returnEndsLine then .look .anyLineEnd
  else .look .lineEnd

def Flags.escape (flags : Flags) : Escape → Regex
  | .char c => flags.char c
  | .ranges rs => .one rs
  | .look a => .look a

/-- What begins with an opening parenthesis, up to where its body begins. -/
inductive Opening where
  | plain (flags : Flags)
  | numbered (name : Option String)
  /-- Flags for what follows, which is no group. -/
  | directive (flags : Flags)

/-- Reads from behind the parenthesis. -/
def openingFrom? (flags : Flags) : List Char → Option (Opening × List Char)
  | '?' :: 'P' :: '<' :: rest | '?' :: '<' :: rest => do
    let (name, rest) ← groupNameFrom? rest
    some (.numbered (some name), rest)
  | '?' :: rest => do
    let (inner, behind) ← flagsFrom? flags true [] rest
    match behind with
    | ')' :: behind => if rest.head? = some ')' then none else some (.directive inner, behind)
    | _ :: behind => some (.plain inner, behind)
    | [] => none
  | rest => some (.numbered none, rest)

/-! ## Expressions -/

mutual
/-- Reads alternatives up to the end of the text or to the parenthesis that closes the group they
stand in. `done` holds the alternatives that have been read and `items` the parts of the last one,
both in reverse; `depth` counts open groups. -/
def alternativesFrom : Nat → Nat → Context → List Regex → List Regex → List Char →
    Option (Regex × Context × List Char)
  | 0, _, _, _, _, _ => none
  | fuel + 1, depth, context, done, items, cs =>
    let flags := context.flags
    let finish : Regex := done.foldl (fun r s => .choice s r) (.ofList items.reverse)
    match skipSpace flags fuel cs with
    | [] => if depth = 0 then some (finish, context, []) else none
    | ')' :: rest => if depth = 0 then none else some (finish, context, rest)
    | '|' :: rest =>
      alternativesFrom fuel depth context (.ofList items.reverse :: done) [] rest
    | '(' :: rest => do
      let (item?, context, rest) ← groupFrom fuel depth context (skipSpace flags fuel rest)
      alternativesFrom fuel depth context done (item?.toList ++ items) rest
    | '[' :: rest => do
      let (rs, rest) ← classFrom? flags fuel rest
      alternativesFrom fuel depth context done (.one rs :: items) rest
    | '\\' :: rest => do
      let (e, rest) ← escapeFrom? rest
      alternativesFrom fuel depth context done (flags.escape e :: items) rest
    | '\x7b' :: rest => do
      let (least, most, rest) ← boundsFrom? flags fuel rest
      repeatLast fuel depth context done items least most rest
    | '*' :: rest => repeatLast fuel depth context done items 0 none rest
    | '+' :: rest => repeatLast fuel depth context done items 1 none rest
    | '?' :: rest => repeatLast fuel depth context done items 0 (some 1) rest
    | '.' :: rest => alternativesFrom fuel depth context done (flags.point :: items) rest
    | '^' :: rest => alternativesFrom fuel depth context done (flags.start :: items) rest
    | '$' :: rest => alternativesFrom fuel depth context done (flags.stop :: items) rest
    | c :: rest => alternativesFrom fuel depth context done (flags.char c :: items) rest
termination_by structural fuel => fuel

/-- Puts a repetition in the place of the last part. -/
def repeatLast : Nat → Nat → Context → List Regex → List Regex → Nat → Option Nat →
    List Char → Option (Regex × Context × List Char)
  | 0, _, _, _, _, _, _, _ => none
  | fuel + 1, depth, context, done, items, least, most, cs =>
    match items with
    | [] => none
    | body :: items =>
      let (isGreedy, rest) := greedFrom context.flags (skipSpace context.flags fuel cs)
      alternativesFrom fuel depth context done (.repetition least most isGreedy body :: items) rest
termination_by structural fuel => fuel

/-- Reads a group from behind its parenthesis. The flags set in it end with it. -/
def groupFrom : Nat → Nat → Context → List Char → Option (Option Regex × Context × List Char)
  | 0, _, _, _ => none
  | fuel + 1, depth, context, cs => do
    let (opening, rest) ← openingFrom? context.flags cs
    if nestingLimit ≤ depth + 1 then none
    else
      match opening with
      | .directive flags => some (none, { context with flags }, rest)
      | .plain flags =>
        let (body, inner, rest) ←
          alternativesFrom fuel (depth + 1) { context with flags } [] [] rest
        some (some body, { inner with flags := context.flags }, rest)
      | .numbered name =>
        let number := context.groups + 1
        let names := context.names ++ name.toList.map fun name => (number, name)
        if name.any fun name => context.names.any fun n => n.2 = name then none
        else
          let (body, inner, rest) ←
            alternativesFrom fuel (depth + 1) ⟨context.flags, number, names⟩ [] [] rest
          some (some (.group number body), { inner with flags := context.flags }, rest)
termination_by structural fuel => fuel
end

/-- A regular expression with the number of its groups and the names of some. -/
structure Parsed where
  regex : Regex
  groups : Nat
  names : List (Nat × String)

def parse (flags : Flags) (text : String) : Option Parsed := do
  let (r, context, _) ← alternativesFrom (4 * text.length + 4) 0 ⟨flags, 0, []⟩ [] [] text.toList
  some ⟨r, context.groups, context.names⟩

end Regex

end SwiftCodec
