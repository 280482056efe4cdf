import SwiftCodec.Filter.Names
import SwiftCodec.Filter.Native
import SwiftCodec.Filter.Prelude

/-!
Running a filter. `run` gives the values of a filter for an input; `update` changes the places in
an input that a filter stands for. Both go down by one step of their first argument at a time,
also where a filter calls itself; a filter that needs more steps is stopped as exhausted.
-/
namespace SwiftCodec

namespace Filter

/-- What the names in a filter mean. -/
inductive Scope where
  | empty
  | variable (name : String) (value : Value) (outer : Scope)
  | label (name : String) (mark : Nat) (outer : Scope)
  /-- A definition, which its own body sees. -/
  | definition (name : String) (parameters : List Parameter) (body : Term) (outer : Scope)
  /-- A filter given as an argument, with the scope of the call. -/
  | argument (name : String) (f : Term) (home : Scope) (outer : Scope)

inductive Callee where
  | definition (parameters : List Parameter) (body : Term) (home : Scope)
  | argument (f : Term) (home : Scope)

namespace Scope

def value? (name : String) : Scope → Option Value
  | .empty => none
  | .variable n v outer => if n = name then some v else outer.value? name
  | .label _ _ outer => outer.value? name
  | .definition _ _ _ outer => outer.value? name
  | .argument _ _ _ outer => outer.value? name

def label? (name : String) : Scope → Option Nat
  | .empty => none
  | .variable _ _ outer => outer.label? name
  | .label n mark outer => if n = name then some mark else outer.label? name
  | .definition _ _ _ outer => outer.label? name
  | .argument _ _ _ outer => outer.label? name

def callee? (name : String) (arity : Nat) : Scope → Option Callee
  | .empty => none
  | .variable _ _ outer => outer.callee? name arity
  | .label _ _ outer => outer.callee? name arity
  | .definition n ps body outer =>
    if n = name ∧ ps.length = arity then some (.definition ps body (.definition n ps body outer))
    else outer.callee? name arity
  | .argument n f home outer =>
    if n = name ∧ arity = 0 then some (.argument f home) else outer.callee? name arity

/-- The scope of every filter. -/
def standard : Scope :=
  prelude.foldl (fun scope d => .definition d.name d.parameters d.body scope) .empty

end Scope

def unknown {α : Type} (name : String) : Outputs α := .fail ("`" ++ name ++ "` is not defined")

/-- The error of a filter that stands for no place, unless it fails by itself. -/
def noPlace (values : Outputs Value) : Outputs Value :=
  match values.first with
  | .ok _ => .fail "invalid path expression"
  | .error s => .stop s

mutual
def run : Nat → Scope → Term → Value → Outputs Value
  | 0, _, _, _ => .stop .exhausted
  | fuel + 1, scope, f, v =>
    match f with
    | .identity => .one v
    | .literal w => .one w
    | .variable name =>
      match scope.value? name with
      | some w => .one w
      | none => unknown name
    | .text format pieces last => textOf fuel scope format pieces last v
    | .array f => .last ((run fuel scope f v).values.map .array)
    | .member f g =>
      (run fuel scope f v).pairs (fun _ => run fuel scope g v) fun key w =>
        match key with
        | .string k => .ok (.object [(k, w)])
        | key => unfit key "string"
    | .negate f => (run fuel scope f v).map negated
    | .pipe f g => (run fuel scope f v).bind (run fuel scope g)
    | .comma f g => (run fuel scope f v).append fun _ => run fuel scope g v
    | .bind f p g =>
      (run fuel scope f v).bind fun w =>
        (named fuel scope p w v scope).bind fun inner => run fuel inner g v
    | .either f g =>
      ((run fuel scope f v).filter Value.holds).orElse fun _ => run fuel scope g v
    | .both f g =>
      (run fuel scope f v).bind fun w =>
        if w.holds then (run fuel scope g v).map fun x => .ok (.bool x.holds)
        else .one (.bool false)
    | .any f g =>
      (run fuel scope f v).bind fun w =>
        if w.holds then .one (.bool true)
        else (run fuel scope g v).map fun x => .ok (.bool x.holds)
    | .apply op f g => (run fuel scope f v).pairs (fun _ => run fuel scope g v) op.run
    | .assign how f g => assign fuel scope how f g v
    | .branch f g h =>
      (run fuel scope f v).bind fun w => run fuel scope (if w.holds then g else h) v
    | .attempt f g => (run fuel scope f v).handle (run fuel scope g)
    | .reduce f p g h =>
      (run fuel scope g v).bind (.reduce (fun inner state => run fuel inner h state)
        ((run fuel scope f v).bind fun w => named fuel scope p w v scope))
    | .foreach f p g h i =>
      (run fuel scope g v).bind (.scan (fun inner state => run fuel inner h state)
        (fun inner state =>
          match i with
          | some i => run fuel inner i state
          | none => .one state)
        ((run fuel scope f v).bind fun w => named fuel scope p w v scope))
    | .label name f => (run fuel (.label name fuel scope) f v).upTo fuel
    | .leave name =>
      match scope.label? name with
      | some mark => .stop (.leave mark)
      | none => unknown name
    | .define name ps f g => run fuel (.definition name ps f scope) g v
    | .call name args =>
      match scope.callee? name args.length with
      | some (.argument f home) => .later fun _ => run fuel home f v
      | some (.definition ps f home) =>
        (enter fuel scope home (ps.zip args) v).bind fun inner => .later fun _ => run fuel inner f v
      | none =>
        match native? name args.length with
        | some n => (given fuel scope (n.parameters.zip args) v).bind (n.run v)
        | none => unknown name
    | .path f steps =>
      (run fuel scope f v).bind fun w =>
        (routes fuel scope steps v).bind fun routes => readAlong routes w
    | .recurse f =>
      .cons (.ok v) fun _ => .later fun _ => (run fuel scope f v).bind (run fuel scope (.recurse f))
termination_by structural fuel => fuel

/-- The texts that come of putting values between literal texts. -/
def textOf : Nat → Scope → Option Term → List (String × Term) → String → Value → Outputs Value
  | 0, _, _, _, _, _ => .stop .exhausted
  | fuel + 1, scope, format, pieces, last, v =>
    match pieces with
    | [] => .one (.string last)
    | (s, f) :: rest =>
      let shown : Outputs Value :=
        match format with
        | some g => (run fuel scope f v).bind (run fuel scope g)
        | none => (run fuel scope f v).map fun w => .ok (.string w.plainText)
      shown.pairs (fun _ => textOf fuel scope format rest last v) fun w x =>
        .ok (.string (s ++ w.plainText ++ x.plainText))
termination_by structural fuel => fuel

/-- The ways to give names to the parts of a value, on top of a scope. The keys of the parts are
values for the input `v`, and do not see these names. -/
def named : Nat → Scope → Pattern → Value → Value → Scope → Outputs Scope
  | 0, _, _, _, _, _ => .stop .exhausted
  | fuel + 1, scope, p, whole, v, inner =>
    match p with
    | .name x => .one (.variable x whole inner)
    | .items ps => namedItems fuel scope 0 ps whole v inner
    | .members ps => namedMembers fuel scope ps whole v inner
termination_by structural fuel => fuel

def namedItems : Nat → Scope → Nat → List Pattern → Value → Value → Scope → Outputs Scope
  | 0, _, _, _, _, _, _ => .stop .exhausted
  | fuel + 1, scope, i, ps, whole, v, inner =>
    match ps with
    | [] => .one inner
    | p :: rest =>
      (Outputs.last (index whole (.ofNat i))).bind fun part =>
        (named fuel scope p part v inner).bind (namedItems fuel scope (i + 1) rest whole v)
termination_by structural fuel => fuel

def namedMembers : Nat → Scope → List (Term × Pattern) → Value → Value → Scope → Outputs Scope
  | 0, _, _, _, _, _ => .stop .exhausted
  | fuel + 1, scope, ps, whole, v, inner =>
    match ps with
    | [] => .one inner
    | (f, p) :: rest =>
      ((run fuel scope f v).map (index whole)).bind fun part =>
        (named fuel scope p part v inner).bind (namedMembers fuel scope rest whole v)
termination_by structural fuel => fuel

/-- The ways to bind parameters to arguments on top of a scope. -/
def enter : Nat → Scope → Scope → List (Parameter × Term) → Value → Outputs Scope
  | 0, _, _, _, _ => .stop .exhausted
  | fuel + 1, scope, inner, args, v =>
    match args with
    | [] => .one inner
    | (p, f) :: rest =>
      if p.isVariable then
        (run fuel scope f v).bind fun w => enter fuel scope (.variable p.name w inner) rest v
      else enter fuel scope (.argument p.name f scope inner) rest v
termination_by structural fuel => fuel

/-- The ways to hand arguments to a native filter. -/
def given : Nat → Scope → List (Argument.Kind × Term) → Value → Outputs (List Argument)
  | 0, _, _, _ => .stop .exhausted
  | fuel + 1, scope, args, v =>
    match args with
    | [] => .one []
    | (.value, f) :: rest =>
      (run fuel scope f v).bind fun w =>
        (given fuel scope rest v).map fun others => .ok (.value w :: others)
    | (.filter, f) :: rest =>
      (given fuel scope rest v).map fun others => .ok (.filter (run fuel scope f) :: others)
termination_by structural fuel => fuel

/-- The ways that steps may take, with the keys and bounds that filters give for an input. -/
def routes : Nat → Scope → List Step → Value → Outputs (List Route)
  | 0, _, _, _ => .stop .exhausted
  | fuel + 1, scope, steps, v =>
    match steps with
    | [] => .one []
    | s :: rest =>
      let first : Outputs Route :=
        match s with
        | .each isOptional => .one ⟨.each, isOptional⟩
        | .index f isOptional =>
          (run fuel scope f v).map fun key => .ok ⟨.under key, isOptional⟩
        | .slice f g isOptional =>
          (bounds fuel scope f v).pairs (fun _ => bounds fuel scope g v) fun start stop =>
            .ok ⟨.between start stop, isOptional⟩
      first.pairs (fun _ => routes fuel scope rest v) fun r others => .ok (r :: others)
termination_by structural fuel => fuel

def bounds : Nat → Scope → Option Term → Value → Outputs (Option Value)
  | 0, _, _, _ => .stop .exhausted
  | _ + 1, _, none, _ => .one none
  | fuel + 1, scope, some f, v => (run fuel scope f v).map fun w => .ok (some w)
termination_by structural fuel => fuel

def assign : Nat → Scope → Assignment → Term → Term → Value → Outputs Value
  | 0, _, _, _, _, _ => .stop .exhausted
  | fuel + 1, scope, how, f, g, v =>
    match how with
    | .replace => (run fuel scope g v).bind fun w => update fuel scope f (fun _ => .one w) v
    | .modify => update fuel scope f (run fuel scope g) v
    | .combine op =>
      (run fuel scope g v).bind fun w => update fuel scope f (fun x => .last (op.run x w)) v
    | .fallback =>
      (run fuel scope g v).bind fun w =>
        update fuel scope f (fun x => .one (if x.holds then x else w)) v
termination_by structural fuel => fuel

/-- The values that come of putting the values of `change` in the places a filter stands for. -/
def update : Nat → Scope → Term → (Value → Outputs Value) → Value → Outputs Value
  | 0, _, _, _, _ => .stop .exhausted
  | fuel + 1, scope, f, change, v =>
    match f with
    | .identity => change v
    | .pipe f g => update fuel scope f (update fuel scope g change) v
    | .comma f g => (update fuel scope f change v).bind (update fuel scope g change)
    | .bind f p g =>
      .reduce (fun inner state => update fuel inner g change state)
        ((run fuel scope f v).bind fun w => named fuel scope p w v scope) v
    | .either f g =>
      match ((run fuel scope f v).filter Value.holds).head? with
      | none => update fuel scope g change v
      | some _ => update fuel scope f change v
    | .branch f g h =>
      .reduce (fun w state => update fuel scope (if w.holds then g else h) change state)
        (run fuel scope f v) v
    | .reduce f p g h =>
      update fuel scope g
        (updateFold fuel h none change
          ((run fuel scope f v).bind fun w => named fuel scope p w v scope)) v
    | .foreach f p g h i =>
      update fuel scope g
        (updateFold fuel h (some (i.getD .identity)) change
          ((run fuel scope f v).bind fun w => named fuel scope p w v scope)) v
    | .define name ps f g => update fuel (.definition name ps f scope) g change v
    | .call name args =>
      match scope.callee? name args.length with
      | some (.argument f home) => .later fun _ => update fuel home f change v
      | some (.definition ps f home) =>
        (enter fuel scope home (ps.zip args) v).bind fun inner =>
          .later fun _ => update fuel inner f change v
      | none => noPlace (run fuel scope (.call name args) v)
    | .path f steps =>
      update fuel scope f (fun w =>
        .reduce (fun along state => .last (changeAlong change along state))
          (routes fuel scope steps v) w) v
    | .recurse f =>
      (update fuel scope f (update fuel scope (.recurse f) change) v).bind change
    | f => noPlace (run fuel scope f v)
termination_by structural fuel => fuel

/-- Changes the places that a loop ends in or, if it has a result for each round, the places of
these as well. -/
def updateFold : Nat → Term → Option Term → (Value → Outputs Value) → Outputs Scope → Value →
    Outputs Value
  | 0, _, _, _, _, _ => .stop .exhausted
  | fuel + 1, step, result, change, rounds, v =>
    match rounds with
    | .nil => if result.isNone then change v else .one v
    | .last (.error s) => .stop s
    | .cons (.error s) _ => .stop s
    | .last (.ok inner) => updateRound fuel inner step result change .nil v
    | .cons (.ok inner) rest =>
      updateRound fuel inner step result change (.later rest) v
    | .later promise => .later fun _ => updateFold fuel step result change (promise ()) v
termination_by structural fuel => fuel

/-- One round of such a loop. -/
def updateRound : Nat → Scope → Term → Option Term → (Value → Outputs Value) → Outputs Scope →
    Value → Outputs Value
  | 0, _, _, _, _, _, _ => .stop .exhausted
  | fuel + 1, inner, step, result, change, rest, v =>
    update fuel inner step (fun w =>
      match result with
      | none => updateFold fuel step result change rest w
      | some f => (update fuel inner f change w).bind (updateFold fuel step result change rest)) v
termination_by structural fuel => fuel
end

/-- Steps that a value may be away from the input. -/
def stepLimit : Nat := Nat.pow 2 40

end Filter

/-- Why a filter gives no documents. -/
inductive FilterFailure where
  | malformed (text : String)
  | undefined (text : String) (names : List Filter.Undefined)
  | stopped (stop : Filter.Stop)
  /-- A value whose text cannot be read back. -/
  | unreadable (text : String) (fault : Fault)
deriving Repr

namespace FilterFailure

def message : FilterFailure → String
  | .malformed text => "parse error: no filter in `" ++ text ++ "`\n"
  | .undefined text names => String.join (names.map fun n =>
      "undefined `" ++ n.name ++ "`: " ++ n.use.text ++ " in `" ++ text ++ "`\n")
  | .stopped (.error v) => "jq runtime error: " ++ v.text
  | .stopped (.leave _) => "jq runtime error: no label to leave to"
  | .stopped .exhausted => "jq runtime error: too many steps"
  | .unreadable text fault => "jq produced non-JSON output: " ++ text ++ ": " ++ fault.message

end FilterFailure

namespace Filter

/-- The filters that need no definition. -/
def known : Known :=
  ⟨prelude.map (fun d => (d.name, d.parameters.length)) ++
    natives.map fun n => (n.name, n.parameters.length), [], []⟩

/-- Reads a filter in which every name is defined. -/
def compile (text : String) : Except FilterFailure Term :=
  match Term.parse text with
  | none => .error (.malformed text)
  | some f =>
    match f.undefined known with
    | [] => .ok f
    | names => .error (.undefined text names)

/-- The value that the text of a value reads as. -/
def reread (v : Value) : Except FilterFailure Json :=
  (Json.parse v.text).mapError (.unreadable v.text)

end Filter

/-- The values of a filter for an input. The first error counts, whatever came before it. -/
def Json.filtered (text : String) (v : Json) : Except FilterFailure (List Json) := do
  let f ← Filter.compile text
  let outputs := Filter.run Filter.stepLimit .standard f (.ofJson v)
  outputs.collect (fun
    | .ok w => Filter.reread w
    | .error s => .error (.stopped s)) []

end SwiftCodec
