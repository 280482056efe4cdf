import SwiftCodec.Filter.Term
import SwiftCodec.Filter.Token

/-!
Reading filters. Operators bind in eleven levels, from the pipe, which takes in all that it can,
to the remainder. The first argument of each reader bounds its recursion: a call takes a token or
goes on to one that does, within a fixed number of steps.
-/
namespace SwiftCodec

namespace Filter

def keywords : List String :=
  ["and", "or", "as", "if", "then", "elif", "else", "end", "def", "reduce", "foreach", "try",
    "catch", "label", "break", "import", "include"]

structure Infixed where
  level : Nat
  /-- A sequence of operators of the level groups to the right. -/
  toRight : Bool
  build : Term → Term → Term

/-- Words and symbols that stand between two filters. -/
def operators : List (String × Infixed) :=
  let assignment (how : Assignment) : Infixed := ⟨2, true, .assign how⟩
  let comparison (level : Nat) (op : Comparison) : Infixed :=
    ⟨level, false, .apply (.comparison op)⟩
  let arithmetic (level : Nat) (op : Arithmetic) : Infixed :=
    ⟨level, false, .apply (.arithmetic op)⟩
  [("|", ⟨0, true, .pipe⟩), (",", ⟨1, false, .comma⟩),
    ("=", assignment .replace), ("|=", assignment .modify),
    ("+=", assignment (.combine .add)), ("-=", assignment (.combine .subtract)),
    ("*=", assignment (.combine .multiply)), ("/=", assignment (.combine .divide)),
    ("%=", assignment (.combine .remainder)), ("//=", assignment .fallback),
    ("//", ⟨3, false, .either⟩), ("or", ⟨4, false, .any⟩), ("and", ⟨5, false, .both⟩),
    ("==", comparison 6 .equal), ("!=", comparison 6 .different),
    ("<", comparison 7 .less), ("<=", comparison 7 .atMost),
    (">", comparison 7 .greater), (">=", comparison 7 .atLeast),
    ("+", arithmetic 8 .add), ("-", arithmetic 8 .subtract),
    ("*", arithmetic 9 .multiply), ("/", arithmetic 9 .divide), ("%", arithmetic 10 .remainder)]

def operator? : Token → Option Infixed
  | .word w => operators.lookup w
  | .symbol s => operators.lookup s
  | _ => none

def expectSymbol (s : String) : List Token → Option (List Token)
  | .symbol t :: rest => if s = t then some rest else none
  | _ => none

def expectWord (w : String) : List Token → Option (List Token)
  | .word v :: rest => if w = v then some rest else none
  | _ => none

/-- The parameters of a definition, from behind its parenthesis. -/
def parameters : List Token → Option (List Parameter × List Token)
  | head :: .symbol s :: rest => do
    let p : Parameter ←
      match head with
      | .word name => if name ∈ keywords then none else some ⟨name, false⟩
      | .variable name => some ⟨name, true⟩
      | _ => none
    if s = ";" then
      let (ps, rest) ← parameters rest
      some (p :: ps, rest)
    else if s = ")" then some ([p], rest)
    else none
  | _ => none

/-- Takes the question marks that come next; says whether there are any. -/
def optionally : List Token → Bool × List Token
  | .symbol "?" :: rest => (true, (optionally rest).2)
  | ts => (false, ts)

/-- Whether a string comes next, which may have a format in front of it. -/
def isText : List Token → Bool
  | .string _ _ :: _ => true
  | .format _ :: .string _ _ :: _ => true
  | _ => false

mutual
/-- Reads a filter whose operators bind at least as tightly as a level. -/
def term : Nat → Bool → Nat → List Token → Option (Term × List Token)
  | 0, _, _, _ => none
  | fuel + 1, commas, level, ts => do
    let (f, ts) ← operand fuel ts
    extend fuel commas level f ts
termination_by structural fuel => fuel

/-- Extends a filter by the operators behind it. Without `commas` a comma ends it. -/
def extend : Nat → Bool → Nat → Term → List Token → Option (Term × List Token)
  | 0, _, _, _, _ => none
  | fuel + 1, commas, level, f, ts =>
    match ts with
    | [] => some (f, [])
    | t :: rest =>
      if (expectWord "as" ts).isSome then
        if 0 < level then some (f, ts)
        else do
          let (p, rest) ← pattern fuel rest
          let (g, rest) ← term fuel commas 0 (← expectSymbol "|" rest)
          some (.bind f p g, rest)
      else
        match operator? t with
        | none => some (f, ts)
        | some op =>
          if op.level < level ∨ (op.level = 1 ∧ ¬ commas) then some (f, ts)
          else do
            let (g, rest) ← term fuel commas (if op.toRight then op.level else op.level + 1) rest
            extend fuel commas level (op.build f g) rest
termination_by structural fuel => fuel

/-- Reads a filter without operators. -/
def operand : Nat → List Token → Option (Term × List Token)
  | 0, _ => none
  | fuel + 1, ts =>
    match ts with
    | [] => none
    | .number n :: rest => suffixes fuel (.literal (.number (.ofText n))) rest
    | .variable name :: rest => suffixes fuel (.variable name) rest
    | .field _ :: _ => suffixes fuel .identity ts
    | .symbol "." :: rest =>
      suffixes fuel .identity (if isText rest then ts else rest)
    | .symbol ".." :: rest => suffixes fuel (.recurse (.parts true)) rest
    | .symbol "-" :: rest => do
      let (f, rest) ← operand fuel rest
      some (.negate f, rest)
    | .symbol "(" :: rest => do
      let (f, rest) ← term fuel true 0 rest
      suffixes fuel f (← expectSymbol ")" rest)
    | .symbol "[" :: .symbol "]" :: rest => suffixes fuel (.literal (.array [])) rest
    | .symbol "[" :: rest => do
      let (f, rest) ← term fuel true 0 rest
      suffixes fuel (.array f) (← expectSymbol "]" rest)
    | .symbol "\x7b" :: .symbol "\x7d" :: rest => suffixes fuel (.literal (.object [])) rest
    | .symbol "\x7b" :: rest => do
      let (f, rest) ← entries fuel rest
      suffixes fuel f rest
    | .symbol _ :: _ => none
    | .word "def" :: rest => do
      let (name, ps, body, rest) ← definition fuel rest
      let (f, rest) ← term fuel true 0 rest
      some (.define name ps body f, rest)
    | .word "if" :: rest => do
      let (f, rest) ← branches fuel rest
      suffixes fuel f rest
    | .word "try" :: rest => do
      let (f, rest) ← operand fuel rest
      match expectWord "catch" rest with
      | none => some (.attempt f .nothing, rest)
      | some rest =>
        let (g, rest) ← operand fuel rest
        some (.attempt f g, rest)
    | .word "label" :: .variable name :: rest => do
      let (f, rest) ← term fuel true 0 (← expectSymbol "|" rest)
      some (.label name f, rest)
    | .word "break" :: .variable name :: rest => suffixes fuel (.leave name) rest
    | .word "reduce" :: rest => do
      let (source, p, args, rest) ← fold fuel rest
      match args with
      | [start, step] => suffixes fuel (.reduce source p start step) rest
      | args => suffixes fuel (.call "reduce" (args.map fun _ => .identity)) rest
    | .word "foreach" :: rest => do
      let (source, p, args, rest) ← fold fuel rest
      match args with
      | [start, step] => suffixes fuel (.foreach source p start step none) rest
      | [start, step, result] => suffixes fuel (.foreach source p start step (some result)) rest
      | args => suffixes fuel (.call "foreach" (args.map fun _ => .identity)) rest
    | .word w :: rest =>
      if w ∈ keywords then none
      else do
        let (args, rest) ← arguments fuel rest
        suffixes fuel (.call w args) rest
    | .format name :: rest =>
      if isText ts then do
        let (f, rest) ← text fuel ts
        suffixes fuel f rest
      else suffixes fuel (.call name []) rest
    | .string _ _ :: _ => do
      let (f, rest) ← text fuel ts
      suffixes fuel f rest
termination_by structural fuel => fuel

/-- Extends a filter by the question marks and the steps to parts that follow it. -/
def suffixes : Nat → Term → List Token → Option (Term × List Token)
  | 0, _, _ => none
  | fuel + 1, f, ts =>
    let (isOptional, rest) := optionally ts
    let f := if isOptional then Term.attempt f .nothing else f
    match steps fuel rest with
    | some ([], rest) => some (f, rest)
    | some (path, rest) => some (.path f path, rest)
    | none => none
termination_by structural fuel => fuel

/-- Reads steps to parts. -/
def steps : Nat → List Token → Option (List Step × List Token)
  | 0, _ => none
  | fuel + 1, ts => do
    let step? : Option ((Bool → Step) × List Token) ←
      match ts with
      | .field name :: rest => some (some (.index (.string name), rest))
      | .symbol "." :: rest => do
        let (key, rest) ← text fuel rest
        some (some (.index key, rest))
      | .symbol "[" :: rest => (bracket fuel rest).map some
      | _ => some none
    match step? with
    | none => some ([], ts)
    | some (step, rest) =>
      let (isOptional, rest) := optionally rest
      let (others, rest) ← steps fuel rest
      some (step isOptional :: others, rest)
termination_by structural fuel => fuel

/-- Reads a step to parts from behind its opening bracket. -/
def bracket : Nat → List Token → Option ((Bool → Step) × List Token)
  | 0, _ => none
  | fuel + 1, ts =>
    match ts with
    | .symbol "]" :: rest => some (.each, rest)
    | .symbol ":" :: rest => do
      let (stop, rest) ← term fuel true 0 rest
      some (.slice none (some stop), ← expectSymbol "]" rest)
    | _ => do
      let (key, rest) ← term fuel true 0 ts
      match rest with
      | .symbol "]" :: rest => some (.index key, rest)
      | .symbol ":" :: .symbol "]" :: rest => some (.slice (some key) none, rest)
      | .symbol ":" :: rest =>
        let (stop, rest) ← term fuel true 0 rest
        some (.slice (some key) (some stop), ← expectSymbol "]" rest)
      | _ => none
termination_by structural fuel => fuel

/-- Reads filters in parentheses, separated by semicolons, if there are any. -/
def arguments : Nat → List Token → Option (List Term × List Token)
  | 0, _ => none
  | fuel + 1, ts =>
    match expectSymbol "(" ts with
    | none => some ([], ts)
    | some rest => moreArguments fuel rest
termination_by structural fuel => fuel

/-- Reads filters up to the closing parenthesis. -/
def moreArguments : Nat → List Token → Option (List Term × List Token)
  | 0, _ => none
  | fuel + 1, ts => do
    let (f, rest) ← term fuel true 0 ts
    match rest with
    | .symbol ")" :: rest => some ([f], rest)
    | .symbol ";" :: rest =>
      let (fs, rest) ← moreArguments fuel rest
      some (f :: fs, rest)
    | _ => none
termination_by structural fuel => fuel

/-- Reads a string, which may have a format in front of it. -/
def text : Nat → List Token → Option (Term × List Token)
  | 0, _ => none
  | fuel + 1, ts =>
    match ts with
    | .string [] last :: rest => some (.string last, rest)
    | .string pieces last :: rest => do
      some (.text none (← interpolations fuel pieces) last, rest)
    | .format name :: .string pieces last :: rest => do
      some (.text (some (.call name [])) (← interpolations fuel pieces) last, rest)
    | _ => none
termination_by structural fuel => fuel

def interpolations : Nat → List (String × List Token) → Option (List (String × Term))
  | 0, _ => none
  | _ + 1, [] => some []
  | fuel + 1, (s, ts) :: rest =>
    match term fuel true 0 ts with
    | some (f, []) => (interpolations fuel rest).map ((s, f) :: ·)
    | _ => none
termination_by structural fuel => fuel

/-- Reads the members of an object up to its closing brace; a comma may stand behind the last. -/
def entries : Nat → List Token → Option (Term × List Token)
  | 0, _ => none
  | fuel + 1, ts => do
    let (key, short?, rest) ←
      match ts with
      | .word w :: rest => some (Term.string w, some (Term.partAt (.string w)), rest)
      | .variable name :: rest =>
        if (expectSymbol ":" rest).isSome then some (.variable name, none, rest)
        else some (.string name, some (.variable name), rest)
      | .symbol "(" :: rest => do
        let (key, rest) ← term fuel true 0 rest
        some (key, none, ← expectSymbol ")" rest)
      | ts => do
        let (key, rest) ← text fuel ts
        some (key, some (.partAt key), rest)
    let (value, rest) ←
      match expectSymbol ":" rest, short? with
      | some rest, _ => term fuel false 0 rest
      | none, some value => some (value, rest)
      | none, none => none
    match rest with
    | .symbol "\x7d" :: rest => some (.member key value, rest)
    | .symbol "," :: .symbol "\x7d" :: rest => some (.member key value, rest)
    | .symbol "," :: rest =>
      let (others, rest) ← entries fuel rest
      some (.add (.member key value) others, rest)
    | _ => none
termination_by structural fuel => fuel

/-- Reads a condition and its branches from behind `if` or `elif`. -/
def branches : Nat → List Token → Option (Term × List Token)
  | 0, _ => none
  | fuel + 1, ts => do
    let (condition, rest) ← term fuel true 0 ts
    let (yes, rest) ← term fuel true 0 (← expectWord "then" rest)
    match rest with
    | .word "end" :: rest => some (.branch condition yes .identity, rest)
    | .word "elif" :: rest =>
      let (no, rest) ← branches fuel rest
      some (.branch condition yes no, rest)
    | .word "else" :: rest =>
      let (no, rest) ← term fuel true 0 rest
      some (.branch condition yes no, ← expectWord "end" rest)
    | _ => none
termination_by structural fuel => fuel

/-- Reads the source, the names and the arguments of a loop. -/
def fold : Nat → List Token → Option (Term × Pattern × List Term × List Token)
  | 0, _ => none
  | fuel + 1, ts => do
    let (source, rest) ← operand fuel ts
    let (p, rest) ← pattern fuel (← expectWord "as" rest)
    let (args, rest) ← arguments fuel rest
    some (source, p, args, rest)
termination_by structural fuel => fuel

/-- Reads a definition from behind `def`. -/
def definition : Nat → List Token → Option (String × List Parameter × Term × List Token)
  | 0, _ => none
  | fuel + 1, ts =>
    match ts with
    | .word name :: rest => do
      let (ps, rest) ←
        match rest with
        | .symbol "(" :: rest => parameters rest
        | rest => some ([], rest)
      if name ∈ keywords then none
      else
        let (body, rest) ← term fuel true 0 (← expectSymbol ":" rest)
        some (name, ps, body, ← expectSymbol ";" rest)
    | _ => none
termination_by structural fuel => fuel

def pattern : Nat → List Token → Option (Pattern × List Token)
  | 0, _ => none
  | fuel + 1, ts =>
    match ts with
    | .variable name :: rest => some (.name name, rest)
    | .symbol "[" :: rest => do
      let (ps, rest) ← itemPatterns fuel rest
      some (.items ps, rest)
    | .symbol "\x7b" :: rest => do
      let (ps, rest) ← memberPatterns fuel rest
      some (.members ps, rest)
    | _ => none
termination_by structural fuel => fuel

def itemPatterns : Nat → List Token → Option (List Pattern × List Token)
  | 0, _ => none
  | fuel + 1, ts => do
    let (p, rest) ← pattern fuel ts
    match rest with
    | .symbol "]" :: rest => some ([p], rest)
    | .symbol "," :: rest =>
      let (ps, rest) ← itemPatterns fuel rest
      some (p :: ps, rest)
    | _ => none
termination_by structural fuel => fuel

def memberPatterns : Nat → List Token → Option (List (Term × Pattern) × List Token)
  | 0, _ => none
  | fuel + 1, ts => do
    let (here, rest) ←
      match ts with
      | .variable name :: rest => some ((Term.string name, Pattern.name name), rest)
      | ts => do
        let (key, rest) ←
          match ts with
          | .word w :: rest => some (Term.string w, rest)
          | .symbol "(" :: rest => do
            let (key, rest) ← term fuel true 0 rest
            some (key, ← expectSymbol ")" rest)
          | ts => text fuel ts
        let (p, rest) ← pattern fuel (← expectSymbol ":" rest)
        some ((key, p), rest)
    match rest with
    | .symbol "\x7d" :: rest => some ([here], rest)
    | .symbol "," :: rest =>
      let (others, rest) ← memberPatterns fuel rest
      some (here :: others, rest)
    | _ => none
termination_by structural fuel => fuel
end

def Term.parse (text : String) : Option Term := do
  let tokens ← tokenize text
  match ← term (8 * text.length + 8) true 0 tokens with
  | (f, []) => some f
  | _ => none

end Filter

end SwiftCodec
