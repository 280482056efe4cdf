import SwiftCodec.Filter.Value

/-!
Filters of JSON values. A filter maps one value to a sequence of values. Objects with several
members are sums of objects with one.
-/
namespace SwiftCodec

namespace Filter

inductive Arithmetic where
  | add
  | subtract
  | multiply
  | divide
  | remainder
deriving DecidableEq, Repr

inductive Comparison where
  | equal
  | different
  | less
  | atMost
  | greater
  | atLeast
deriving DecidableEq, Repr

inductive Operator where
  | arithmetic (op : Arithmetic)
  | comparison (op : Comparison)
deriving DecidableEq, Repr

/-- How an assignment finds what it puts in a place. -/
inductive Assignment where
  /-- The values of the right side, for the whole input. -/
  | replace
  /-- The values of the right side, for what stood there. -/
  | modify
  /-- What stood there, combined with a value of the right side. -/
  | combine (op : Arithmetic)
  /-- What stood there, or a value of the right side if that is null or false. -/
  | fallback
deriving DecidableEq, Repr

/-- A parameter stands for a filter, or for each of its values in turn. -/
structure Parameter where
  name : String
  isVariable : Bool
deriving DecidableEq, Repr

mutual
inductive Term where
  | identity
  | literal (value : Value)
  | variable (name : String)
  /-- A text with the values of filters in it, each through the filter `format`, or else as it
  reads. -/
  | text (format : Option Term) (pieces : List (String × Term)) (last : String)
  /-- The array of all values of a filter. -/
  | array (content : Term)
  /-- The object with a single member. -/
  | member (key value : Term)
  | negate (f : Term)
  | pipe (f g : Term)
  | comma (f g : Term)
  /-- `g` for each value of `f`, whose parts it sees under names. -/
  | bind (f : Term) (names : Pattern) (g : Term)
  /-- The values of `f` other than null and false, or else those of `g`. -/
  | either (f g : Term)
  | both (f g : Term)
  | any (f g : Term)
  | apply (op : Operator) (f g : Term)
  | assign (how : Assignment) (place value : Term)
  | branch (condition yes no : Term)
  /-- `f` up to its first error, and there the values of a handler. -/
  | attempt (f handler : Term)
  | reduce (source : Term) (names : Pattern) (start step : Term)
  | foreach (source : Term) (names : Pattern) (start step : Term) (result : Option Term)
  | label (name : String) (f : Term)
  | leave (name : String)
  | define (name : String) (parameters : List Parameter) (body rest : Term)
  | call (name : String) (arguments : List Term)
  /-- The parts of the values of `f` that steps lead to. -/
  | path (f : Term) (steps : List Step)
  /-- The input, the values of `f` for it, the values of `f` for those, and so on. -/
  | recurse (f : Term)
/-- A step to parts of a value. An optional step leads nowhere from a value without such parts. -/
inductive Step where
  | each (isOptional : Bool)
  | index (key : Term) (isOptional : Bool)
  | slice (start stop : Option Term) (isOptional : Bool)
/-- Names for parts of a value. -/
inductive Pattern where
  | name (x : String)
  | items (parts : List Pattern)
  | members (parts : List (Term × Pattern))
end

deriving instance Repr, Inhabited for Term, Step, Pattern

namespace Term

def string (s : String) : Term := .literal (.string s)

def add (f g : Term) : Term := .apply (.arithmetic .add) f g

/-- The part of the input at a key. -/
def partAt (key : Term) : Term := .path .identity [.index key false]

/-- The parts of the input. -/
def parts (isOptional : Bool) : Term := .path .identity [.each isOptional]

/-- No values at all, and no place. -/
def nothing : Term := .path (.literal (.array [])) [.each false]

end Term

mutual
/-- The names a pattern gives. -/
def Pattern.names : Pattern → List String
  | .name x => [x]
  | .items ps => patternNames ps
  | .members ps => memberNames ps
termination_by structural p => p
def patternNames : List Pattern → List String
  | [] => []
  | p :: rest => p.names ++ patternNames rest
termination_by structural ps => ps
def memberNames : List (Term × Pattern) → List String
  | [] => []
  | (_, p) :: rest => p.names ++ memberNames rest
termination_by structural ps => ps
end

end Filter

end SwiftCodec
