import SwiftCodec.Filter.Term

/-!
The names a filter uses without defining them. Filters go by name and number of arguments, and
have a space of names apart from variables and from labels.
-/
namespace SwiftCodec

namespace Filter

inductive Use where
  | filter (arity : Nat)
  | variable
  | label
deriving DecidableEq, Repr

def Use.text : Use → String
  | .filter arity => "Filter(" ++ toString arity ++ ")"
  | .variable => "Var"
  | .label => "Label"

/-- A name as written, and what it was meant to be. -/
structure Undefined where
  name : String
  use : Use
deriving DecidableEq, Repr

/-- Names that are known at a place in a filter. -/
structure Known where
  filters : List (String × Nat)
  vars : List String := []
  labels : List String := []

namespace Known

def withVariable (k : Known) (name : String) : Known :=
  { k with vars := name :: k.vars }

def withVariables (k : Known) (names : List String) : Known := names.foldl withVariable k

def withLabel (k : Known) (name : String) : Known := { k with labels := name :: k.labels }

def withFilter (k : Known) (name : String) (arity : Nat) : Known :=
  { k with filters := (name, arity) :: k.filters }

def withParameter (k : Known) (p : Parameter) : Known :=
  if p.isVariable then k.withVariable p.name else k.withFilter p.name 0

end Known

mutual
/-- The undefined names. They come in the order of the text, with these exceptions: a call comes
behind its arguments, a body behind what follows its definition, a source behind the filter that
sees its parts, and the branches of a condition last to first. -/
def Term.undefined (k : Known) : Term → List Undefined
  | .identity => []
  | .literal _ => []
  | .variable name => if name ∈ k.vars then [] else [⟨"$" ++ name, .variable⟩]
  | .text none pieces _ => undefinedInPieces k pieces
  | .text (some f) pieces _ => f.undefined k ++ undefinedInPieces k pieces
  | .array f => f.undefined k
  | .member f g => f.undefined k ++ g.undefined k
  | .negate f => f.undefined k
  | .pipe f g => f.undefined k ++ g.undefined k
  | .comma f g => f.undefined k ++ g.undefined k
  | .bind f p g => g.undefined (k.withVariables p.names) ++ f.undefined k ++ p.undefined k
  | .either f g => f.undefined k ++ g.undefined k
  | .both f g => f.undefined k ++ g.undefined k
  | .any f g => f.undefined k ++ g.undefined k
  | .apply _ f g => f.undefined k ++ g.undefined k
  | .assign _ f g => f.undefined k ++ g.undefined k
  | .branch f g h => h.undefined k ++ f.undefined k ++ g.undefined k
  | .attempt f g => f.undefined k ++ g.undefined k
  | .reduce f p g h =>
    f.undefined k ++ p.undefined k ++ g.undefined k ++ h.undefined (k.withVariables p.names)
  | .foreach f p g h none =>
    f.undefined k ++ p.undefined k ++ g.undefined k ++ h.undefined (k.withVariables p.names)
  | .foreach f p g h (some i) =>
    f.undefined k ++ p.undefined k ++ g.undefined k ++ h.undefined (k.withVariables p.names) ++
      i.undefined (k.withVariables p.names)
  | .label name f => f.undefined (k.withLabel name)
  | .leave name => if name ∈ k.labels then [] else [⟨"$" ++ name, .label⟩]
  | .define name ps f g =>
    let here := k.withFilter name ps.length
    g.undefined here ++ f.undefined (ps.foldl Known.withParameter here)
  | .call name args =>
    undefinedInAll k args ++
      if (name, args.length) ∈ k.filters then [] else [⟨name, .filter args.length⟩]
  | .path f steps => f.undefined k ++ undefinedInSteps k steps
  | .recurse f => f.undefined k
termination_by structural f => f

def Step.undefined (k : Known) : Step → List Undefined
  | .each _ => []
  | .index f _ => f.undefined k
  | .slice none none _ => []
  | .slice (some f) none _ => f.undefined k
  | .slice none (some g) _ => g.undefined k
  | .slice (some f) (some g) _ => f.undefined k ++ g.undefined k
termination_by structural s => s

def Pattern.undefined (k : Known) : Pattern → List Undefined
  | .name _ => []
  | .items ps => undefinedInItems k ps
  | .members ps => undefinedInMembers k ps
termination_by structural p => p

def undefinedInAll (k : Known) : List Term → List Undefined
  | [] => []
  | f :: fs => f.undefined k ++ undefinedInAll k fs
termination_by structural fs => fs

def undefinedInPieces (k : Known) : List (String × Term) → List Undefined
  | [] => []
  | (_, f) :: rest => f.undefined k ++ undefinedInPieces k rest
termination_by structural fs => fs

def undefinedInSteps (k : Known) : List Step → List Undefined
  | [] => []
  | s :: rest => s.undefined k ++ undefinedInSteps k rest
termination_by structural ss => ss

def undefinedInItems (k : Known) : List Pattern → List Undefined
  | [] => []
  | p :: rest => p.undefined k ++ undefinedInItems k rest
termination_by structural ps => ps

def undefinedInMembers (k : Known) : List (Term × Pattern) → List Undefined
  | [] => []
  | (f, p) :: rest => f.undefined k ++ p.undefined k ++ undefinedInMembers k rest
termination_by structural ps => ps
end

end Filter

end SwiftCodec
