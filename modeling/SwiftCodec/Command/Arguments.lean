import SwiftCodec.Text.Quoted

/-!
The arguments of the command line. An option of one value takes the argument behind it, or the
text attached to it; `--input` takes all arguments up to the next option. Nothing but `--input`
may be given twice.
-/
namespace SwiftCodec

namespace Command

/-- Which documents to read. -/
structure Inputs where
  /-- A filter for each file, all values of which are documents. -/
  filter : Option String := none
  /-- Paths and patterns of paths. -/
  patterns : List String := []
deriving DecidableEq, Repr

structure GenerateOptions where
  inputs : Inputs := {}
  /-- The directory to write to. -/
  out : Option String := none
  stdout : Bool := false
  /-- Also write the file that generated code calls into. -/
  emitSupport : Bool := false
  /-- Show the options and do nothing. -/
  showOnly : Bool := false
deriving DecidableEq, Repr

structure RegistryOptions where
  inputs : Inputs := {}
  /-- The file to write to. -/
  out : Option String := none
deriving DecidableEq, Repr

inductive Request where
  | generate (o : GenerateOptions)
  | registry (o : RegistryOptions)
  | help
  | version
deriving DecidableEq, Repr

/-! ## Reading options -/

inductive Switch where
  | filter
  | input
  | out
  | stdout
  | emitSupport
  | showOnly
  | help
deriving DecidableEq, Repr

abbrev Switches := List (String × Switch)

def registrySwitches : Switches :=
  [("jq-expr", .filter), ("input", .input), ("out", .out), ("help", .help)]

def generateSwitches : Switches :=
  registrySwitches ++ [("stdout", .stdout), ("emit-runtime", .emitSupport), ("no-op", .showOnly)]

def letterSwitches : List (Char × Switch) := [('i', .input), ('o', .out), ('h', .help)]

/-- Arguments are no request, or ask for help before they could be. -/
inductive Interruption where
  | misuse
  | help
deriving DecidableEq, Repr

def misuse : Except Interruption α := .error .misuse

/-- An argument by itself. -/
inductive Word where
  | switch (s : Switch) (attached : Option String)
  | value (text : String)
  /-- Two dashes, behind which there are no options. -/
  | stop
deriving DecidableEq, Repr

/-- The text in front of an equals sign, and the text behind it. -/
def cut (cs : List Char) : String × Option String :=
  let name := String.ofList (cs.takeWhile (· ≠ '='))
  match cs.dropWhile (· ≠ '=') with
  | [] => (name, none)
  | _ :: value => (name, some (String.ofList value))

/-- What is attached to a letter; an equals sign in between does not count. -/
def attachment : List Char → Option String
  | [] => none
  | '=' :: rest => some (String.ofList rest)
  | rest => some (String.ofList rest)

def Word.ofArgument (switches : Switches) (argument : String) : Except Interruption Word :=
  match argument.toList with
  | ['-', '-'] => .ok .stop
  | '-' :: '-' :: rest =>
    let (name, attached) := cut rest
    match switches.lookup name with
    | some s => .ok (.switch s attached)
    | none => misuse
  | '-' :: letter :: rest =>
    match letterSwitches.lookup letter with
    | some .help => .ok (.switch .help none)
    | some s => .ok (.switch s (attachment rest))
    | none => misuse
  | _ => .ok (.value argument)

/-- Options given so far. -/
structure Draft where
  filter : Option String := none
  patterns : List String := []
  out : Option String := none
  stdout : Bool := false
  emitSupport : Bool := false
  showOnly : Bool := false
deriving DecidableEq, Repr

def Switch.takesValue : Switch → Bool
  | .filter | .input | .out => true
  | _ => false

namespace Draft

/-- Gives a value to an option. A path must not be empty. -/
def set (d : Draft) (s : Switch) (value : String) : Except Interruption Draft :=
  match s with
  | .filter => if d.filter.isSome then misuse else .ok { d with filter := some value }
  | .input => .ok { d with patterns := d.patterns ++ [value] }
  | .out => if d.out.isSome ∨ value.isEmpty then misuse else .ok { d with out := some value }
  | _ => misuse

def turnOn (d : Draft) (s : Switch) : Except Interruption Draft :=
  match s with
  | .stdout => if d.stdout then misuse else .ok { d with stdout := true }
  | .emitSupport => if d.emitSupport then misuse else .ok { d with emitSupport := true }
  | .showOnly => if d.showOnly then misuse else .ok { d with showOnly := true }
  | .help => .error .help
  | _ => misuse

end Draft

/-- What an option still takes. -/
inductive Waiting where
  | nothing
  /-- An option without its value. -/
  | value (s : Switch)
  /-- `--input` with a value, which may be followed by others. -/
  | others
deriving DecidableEq, Repr

def readArguments (switches : Switches) (d : Draft) (w : Waiting) :
    List String → Except Interruption Draft
  | [] => if w matches .value _ then misuse else .ok d
  | argument :: rest => do
    match ← Word.ofArgument switches argument, w with
    | .value text, .value s =>
      readArguments switches (← d.set s text) (if s = .input then .others else .nothing) rest
    | .value text, .others => readArguments switches (← d.set .input text) .others rest
    | .value _, .nothing => misuse
    | _, .value _ => misuse
    | .stop, _ => if rest = [] then .ok d else misuse
    | .switch s (some text), _ => readArguments switches (← d.set s text) .nothing rest
    | .switch s none, _ =>
      if s.takesValue then readArguments switches d (.value s) rest
      else readArguments switches (← d.turnOn s) .nothing rest

/-- Some input is needed, and only one place to write to. -/
def Draft.check (d : Draft) : Except Interruption Draft :=
  if d.patterns.isEmpty ∨ (d.stdout ∧ d.out.isSome) then misuse else .ok d

def readDraft (switches : Switches) (arguments : List String) : Except Interruption Draft := do
  (← readArguments switches {} .nothing arguments).check

/-- What arguments ask for, if they are in order. -/
def Request.ofArguments? (arguments : List String) : Option Request :=
  let finish (r : Except Interruption Draft) (f : Draft → Request) : Option Request :=
    match r with
    | .ok d => some (f d)
    | .error .help => some .help
    | .error .misuse => none
  match arguments with
  | "generate" :: rest =>
    finish (readDraft generateSwitches rest) fun d =>
      .generate ⟨⟨d.filter, d.patterns⟩, d.out, d.stdout, d.emitSupport, d.showOnly⟩
  | "registry" :: rest =>
    finish (readDraft registrySwitches rest) fun d => .registry ⟨⟨d.filter, d.patterns⟩, d.out⟩
  | "help" :: rest =>
    if rest ∈ [[], ["generate"], ["registry"], ["help"]] then some .help else none
  | "--help" :: _ => some .help
  | "--version" :: _ => some .version
  | argument :: _ =>
    match argument.toList with
    | '-' :: 'h' :: _ => some .help
    | '-' :: 'V' :: _ => some .version
    | _ => none
  | [] => none

/-! ## Texts -/

def helpLines : List String :=
  ["generate Swift `decodeJson`/`encodeJson` extensions from parsed Swift declarations", "",
    "Usage: swift-json-gen <COMMAND>", "",
    "Commands:",
    "  generate  generate one `+JsonGen.swift` file per declaration document",
    "  registry  print the existing codecs and type aliases found in the inputs",
    "  help      Print this message or the help of the given subcommand(s)", "",
    "Options:",
    "  -h, --help     Print help",
    "  -V, --version  Print version"]

def helpText : String := String.join (helpLines.map (· ++ "\n"))

def versionText : String := "swift-json-gen 0.1.0\n"

/-- The options on lines of their own, indented by what they are part of. -/
def GenerateOptions.lines (o : GenerateOptions) : List String :=
  let indent (n : Nat) (line : String) : String :=
    String.ofList (List.replicate (4 * n) ' ') ++ line
  let optional (n : Nat) (name : String) (text? : Option String) : List String :=
    match text? with
    | none => [indent n (name ++ ": None,")]
    | some text => [indent n (name ++ ": Some("), indent (n + 1) (text ++ ","), indent n "),"]
  let flag (name : String) (b : Bool) : String := indent 3 (name ++ ": " ++ toString b ++ ",")
  ["CommandLineInterface \x7b", indent 1 "cmd: Generate(", indent 2 "GenerateOut \x7b",
    indent 3 "input_settings: InputSettings \x7b"] ++
    optional 4 "jq_expr" (o.inputs.filter.map Text.quoted) ++
    [indent 4 "input: ["] ++
    o.inputs.patterns.map (fun p => indent 5 (Text.quoted p ++ ",")) ++
    [indent 4 "],", indent 3 "\x7d,"] ++
    optional 3 "out" (o.out.map Text.quotedPath) ++
    [flag "stdout" o.stdout, flag "emit_runtime" o.emitSupport, flag "no_op" o.showOnly,
      indent 2 "\x7d,", indent 1 "),", "\x7d"]

end Command

end SwiftCodec
