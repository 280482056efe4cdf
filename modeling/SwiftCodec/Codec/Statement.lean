/-!
The functions that make up a codec, statement by statement, and their lines.
-/
namespace SwiftCodec

/-- Why generated decoding gives up. -/
inductive DecodeFailure where
  | missingField (field : String)
  /-- No field means that the input as a whole has the wrong shape. -/
  | typeMismatch (field : Option String) (expected : String)
deriving DecidableEq, Repr

def DecodeFailure.text : DecodeFailure → String
  | .missingField field => "field '" ++ field ++ "' is missing"
  | .typeMismatch (some field) expected => "field '" ++ field ++ "' is not a " ++ expected
  | .typeMismatch none expected => "json not a " ++ expected

/-- What a name is bound to: an entry of the dictionary at hand, or the value of an expression. -/
inductive Source where
  | entry (key : String)
  | expression (text : String)
deriving DecidableEq, Repr

def Source.text : Source → String
  | .entry key => "dict[\"" ++ key ++ "\"]"
  | .expression text => text

/-- A name bound by a statement, with its type if that is written. -/
structure Binding where
  name : String
  type : Option String := none
  source : Source
deriving DecidableEq, Repr

def Binding.text (b : Binding) : String :=
  (match b.type with
    | none => b.name
    | some type => b.name ++ ": " ++ type) ++ " = " ++ b.source.text

inductive Statement where
  | blank
  /-- Binds a name. -/
  | bind (b : Binding)
  /-- Binds a name unless the value is nil, in which case the function gives up. -/
  | guardBind (b : Binding) (failure : DecodeFailure)
  /-- Gives back the value of an expression if the bound value is there. -/
  | ifBind (b : Binding) (value : String)
  /-- Gives back a new value built from names of the same labels. -/
  | construct (type : String) (labels : List String)
  | giveBack (value : String)
  | newDictionary
  | store (key value : String)
  /-- The remark that the next entry is keyed by something other than a string. -/
  | keyWarning
deriving DecidableEq, Repr

def keyWarningText : String :=
  "/* WARNING: Json only supports Strings as keys in dictionaries */"

def Statement.lines : Statement → List String
  | .blank => [""]
  | .bind b => ["let " ++ b.text]
  | .guardBind b failure =>
    ["guard let " ++ b.text ++ " else \x7b",
      "  assertionFailure(\"" ++ failure.text ++ "\")",
      "  return nil",
      "\x7d"]
  | .ifBind b value =>
    ["if let " ++ b.text ++ " \x7b",
      "  return " ++ value,
      "\x7d"]
  | .construct type labels =>
    ["return " ++ type ++ "(" ++
      String.intercalate ", " (labels.map fun l => l ++ ": " ++ l) ++ ")"]
  | .giveBack value => ["return " ++ value]
  | .newDictionary => ["var dict: [String: AnyObject] = [:]"]
  | .store key value => [(Source.entry key).text ++ " = " ++ value]
  | .keyWarning => [keyWarningText]

/-- Blanks in front of a line; an empty line stays empty. -/
def indent (width : Nat) (line : String) : String :=
  if line = "" then "" else String.ofList (List.replicate width ' ') ++ line

/-- A function of an extension. -/
structure Function where
  /-- The words up to and including the name. -/
  opening : String
  parameters : List String
  result : String
  body : List Statement
deriving DecidableEq, Repr

namespace Function

/-- Only the first parameter keeps its label. -/
def unlabelled : List String → List String
  | [] => []
  | p :: ps => p :: ps.map ("_ " ++ ·)

def signature (f : Function) : String :=
  f.opening ++ "(" ++ String.intercalate ", " (unlabelled f.parameters) ++ ") -> " ++ f.result

def lines (f : Function) : List String :=
  indent 2 (f.signature ++ " \x7b") ::
    (f.body.flatMap Statement.lines).map (indent 4) ++ [indent 2 "\x7d"]

end Function

end SwiftCodec
