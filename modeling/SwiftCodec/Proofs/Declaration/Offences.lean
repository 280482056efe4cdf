import SwiftCodec.Proofs.Declaration.Nesting
import SwiftCodec.Proofs.Declaration.Validity
import SwiftCodec.Proofs.Name.Dotted
import SwiftCodec.Proofs.TypeExpr.Validity

/-!
All that can be wrong with a file, as one list. Validation stops at the first check that fails, so
it succeeds if the list is empty, and otherwise its error is the head of the list.
-/
namespace SwiftCodec

/-! ## The first of some defects -/

namespace Defect

/-- Success if there are no defects, else the failure by the first. -/
def first : List Defect → Except Defect Unit
  | [] => .ok ()
  | d :: _ => .error d

theorem first_eq_error {ds : List Defect} {d : Defect} :
    first ds = .error d ↔ ds.head? = some d := by
  cases ds <;> simp [first]

theorem first_append (ds es : List Defect) :
    first (ds ++ es) = first ds >>= fun _ => first es := by
  cases ds <;> rfl

theorem forM_first {α : Type} {check : α → Except Defect Unit} {offences : α → List Defect}
    {as : List α} (each : ∀ a ∈ as, check a = first (offences a)) :
    as.forM check = first (as.flatMap offences) := by
  induction as with
  | nil => rfl
  | cons a as ih =>
    obtain ⟨head, tail⟩ := List.forall_mem_cons.mp each
    change (check a >>= fun _ => as.forM check) = _
    rw [List.flatMap_cons, first_append, head, ih tail]

end Defect

/-! ## Names -/

/-- The defect of a name that is not as it has to be. -/
def misnamed (formed : String → Bool) (role : NameRole) (name : String) : List Defect :=
  if formed name then [] else [.invalidName role name]

theorem checkDotted_first (role : NameRole) (name : String) :
    checkDotted role name = Defect.first (misnamed Name.isDotted role name) := by
  unfold checkDotted misnamed
  split_ifs <;> rfl

theorem checkIdentifier_first (role : NameRole) (name : String) :
    checkIdentifier role name = Defect.first (misnamed Name.isIdentifier role name) := by
  unfold checkIdentifier misnamed
  split_ifs <;> rfl

/-- What is wrong with the name at a position: its form, or that it stands further in front too. -/
def nameOffences (names : List String) (position : String × Nat) : List Defect :=
  misnamed Name.isDotted .typeName position.1 ++
    if position.1 ∈ names.take position.2 then [.duplicate position.1] else []

theorem checkDistinct_first (before names : List String) {seen : List String}
    (passed : ∀ n, n ∈ seen ↔ n ∈ before) :
    checkDistinct seen names =
      Defect.first ((names.zipIdx before.length).flatMap (nameOffences (before ++ names))) := by
  induction names generalizing before seen with
  | nil => rfl
  | cons name names ih =>
    have onward : ∀ n, n ∈ name :: seen ↔ n ∈ before ++ [name] := by
      intro n
      simp [passed, or_comm]
    have rest := ih (before ++ [name]) onward
    simp only [List.length_append, List.length_singleton, List.append_assoc,
      List.singleton_append] at rest
    have here : (before ++ name :: names).take before.length = before := by simp
    rw [checkDistinct, rest, List.zipIdx_cons, List.flatMap_cons, Defect.first_append, nameOffences,
      Defect.first_append, ← checkDotted_first, here]
    by_cases repeated : name ∈ before
    · have found : seen.contains name := by simpa [passed] using repeated
      rw [found, if_pos rfl, if_pos repeated]
      cases checkDotted .typeName name <;> rfl
    · have absent : seen.contains name = false := by simpa [passed] using repeated
      rw [absent, if_neg repeated]
      cases checkDotted .typeName name <;> rfl

/-! ## Types -/

namespace TypeExpr

/-- How many arguments a name takes, if there is a fixed number. -/
def arity? (name : String) : Option Nat :=
  if name = "Optional" ∨ name = "Array" then some 1
  else if name = "Dictionary" then some 2
  else none

/-- What is wrong with a node itself: its name, or the number of its arguments. -/
def nodeOffences (n : TypeExpr) : List Defect :=
  misnamed Name.isDotted .typeName n.base ++
    match arity? n.base with
    | none => []
    | some k => if n.args.length = k then [] else [.malformedType n.base k n.args.length]

/-- What is wrong with a type, from the outside in and from left to right. -/
def offences (t : TypeExpr) : List Defect := t.nodes.flatMap nodeOffences

theorem shape_first (t : TypeExpr) :
    checkDotted .typeName t.base >>= (fun _ => discard t.shape) = Defect.first t.nodeOffences := by
  obtain ⟨base, target, args⟩ := t
  have shaped : discard (shape ⟨base, target, args⟩) = Defect.first
      (match arity? base with
        | none => []
        | some k => if args.length = k then [] else [.malformedType base k args.length]) := by
    unfold shape arity?
    dsimp only
    split
    · rename_i optional
      match args with
      | [] | [_] | _ :: _ :: _ => simp [optional]; rfl
    · split
      · rename_i array
        match args with
        | [] | [_] | _ :: _ :: _ => simp [array]; rfl
      · split
        · rename_i dictionary
          match args with
          | [] | [_] | [_, _] | _ :: _ :: _ :: _ => simp [dictionary]; rfl
        · rename_i optional array dictionary
          match args with
          | [] | _ :: _ => simp [optional, array]; rfl
  rw [nodeOffences, Defect.first_append, ← checkDotted_first, ← shaped]

theorem validateAll_eq_forM (ts : List TypeExpr) : validateAll ts = ts.forM validate := by
  induction ts with
  | nil => rfl
  | cons t ts ih => rw [validateAll, ih]; rfl

theorem validate_first (t : TypeExpr) : t.validate = Defect.first t.offences := by
  induction t with
  | node base target args ih =>
    have inside : (nodesAll args).flatMap nodeOffences = args.flatMap offences := by
      rw [nodesAll_eq_flatMap, List.flatMap_assoc]
      rfl
    rw [validate, validateAll_eq_forM, Defect.forM_first ih, offences, nodes, List.flatMap_cons,
      inside, Defect.first_append, ← shape_first]
    cases checkDotted .typeName base <;> rfl

/-- Every node has a dotted name and, where its name takes a fixed number of arguments, so many. -/
def WellFormed (t : TypeExpr) : Prop :=
  ∀ n ∈ t.nodes, Name.Dotted n.base ∧ ∀ k, arity? n.base = some k → n.args.length = k

theorem shaped_iff_arity {t : TypeExpr} :
    (∃ s, t.shape = .ok s) ↔ ∀ k, arity? t.base = some k → t.args.length = k := by
  rw [shaped_iff]
  unfold arity?
  split_ifs with one two
  · simp only [Option.some.injEq, forall_eq', one, forall_const, and_iff_left_iff_imp]
    intro _ dictionary
    exact absurd one (by simp [dictionary])
  · simp [two]
  · simp [one, two]

theorem validate_iff_wellFormed {t : TypeExpr} : t.validate = .ok () ↔ t.WellFormed := by
  rw [validate_iff_nodes]
  simp only [Name.isDotted_iff, shaped_iff_arity]
  rfl

end TypeExpr

/-! ## Files -/

namespace Inventory

def structOffences (s : StructDecl) : List Defect :=
  s.parameters.flatMap (misnamed Name.isIdentifier .typeArgument) ++
    s.fields.flatMap fun f => misnamed Name.isIdentifier .fieldName f.name ++ f.type.offences

def aliasOffences (a : AliasDecl) : List Defect :=
  misnamed Name.isDotted .typeAlias a.name ++ a.target.offences

/-- All that is wrong with the declarations of a file. -/
def offences (i : Inventory) : List Defect :=
  i.typeNames.zipIdx.flatMap (nameOffences i.typeNames) ++ i.structs.flatMap structOffences ++
    i.enums.flatMap (fun e => misnamed Name.isDotted .rawType e.rawType) ++
    i.aliases.flatMap aliasOffences

/-- What generation relies on. -/
structure Valid (i : Inventory) : Prop where
  typeNames : ∀ n ∈ i.typeNames, Name.Dotted n
  distinct : i.typeNames.Nodup
  parameters : ∀ s ∈ i.structs, ∀ p ∈ s.parameters, Name.isIdentifier p
  fieldNames : ∀ s ∈ i.structs, ∀ f ∈ s.fields, Name.isIdentifier f.name
  fieldTypes : ∀ s ∈ i.structs, ∀ f ∈ s.fields, f.type.WellFormed
  rawTypes : ∀ e ∈ i.enums, Name.Dotted e.rawType
  aliasNames : ∀ a ∈ i.aliases, Name.Dotted a.name
  targets : ∀ a ∈ i.aliases, a.target.WellFormed

theorem validateStruct_first (s : StructDecl) :
    validateStruct s = Defect.first (structOffences s) := by
  have fields : (s.fields.forM fun f => do
      checkIdentifier .fieldName f.name
      f.type.validate) = Defect.first (s.fields.flatMap fun f =>
        misnamed Name.isIdentifier .fieldName f.name ++ f.type.offences) := by
    refine Defect.forM_first fun f _ => ?_
    rw [Defect.first_append, ← checkIdentifier_first, ← TypeExpr.validate_first]
  rw [validateStruct, structOffences, Defect.first_append, ← fields,
    Defect.forM_first fun p _ => checkIdentifier_first .typeArgument p]

theorem validateAlias_first (a : AliasDecl) :
    validateAlias a = Defect.first (aliasOffences a) := by
  rw [validateAlias, aliasOffences, Defect.first_append, ← checkDotted_first,
    ← TypeExpr.validate_first]

theorem validate_first (i : Inventory) : i.validate = Defect.first i.offences := by
  have names : checkDistinct [] i.typeNames =
      Defect.first (i.typeNames.zipIdx.flatMap (nameOffences i.typeNames)) :=
    checkDistinct_first [] i.typeNames (by simp)
  have raws : (i.enums.forM fun e => checkDotted .rawType e.rawType) =
      Defect.first (i.enums.flatMap fun e => misnamed Name.isDotted .rawType e.rawType) :=
    Defect.forM_first fun e _ => checkDotted_first .rawType e.rawType
  rw [validate, offences, Defect.first_append, Defect.first_append, Defect.first_append, ← names,
    ← raws, Defect.forM_first fun s _ => validateStruct_first s,
    Defect.forM_first fun a _ => validateAlias_first a]
  cases checkDistinct [] i.typeNames with
  | error => rfl
  | ok => cases Defect.first (i.structs.flatMap structOffences) <;> rfl

theorem validate_iff_valid {i : Inventory} : i.validate = .ok () ↔ i.Valid := by
  rw [validate_eq_ok]
  simp only [validateStruct_eq_ok, validateAlias_eq_ok, Name.isDotted_iff,
    TypeExpr.validate_iff_wellFormed]
  constructor
  · rintro ⟨⟨names, distinct⟩, structs, raws, aliases⟩
    exact ⟨names, distinct, fun s member => (structs s member).1,
      fun s member f field => ((structs s member).2 f field).1,
      fun s member f field => ((structs s member).2 f field).2, raws,
      fun a member => (aliases a member).1, fun a member => (aliases a member).2⟩
  · intro valid
    refine ⟨⟨valid.typeNames, valid.distinct⟩, ?_, valid.rawTypes, ?_⟩
    · intro s member
      exact ⟨valid.parameters s member,
        fun f field => ⟨valid.fieldNames s member f field, valid.fieldTypes s member f field⟩⟩
    · intro a member
      exact ⟨valid.aliasNames a member, valid.targets a member⟩

end Inventory

/-! ## Nesting -/

namespace Declaration

mutual
/-- The structs and enums in a declaration, each as the names written on the way to it from the
outside in. -/
def typePaths (above : List String) : Declaration → List (List String)
  | .struct ⟨name, _, _, nested⟩ =>
    (above ++ [name]) :: typePathsAll (above ++ [name]) nested
  | .enum e nested => (above ++ [e.name]) :: typePathsAll (above ++ [e.name]) nested
  | .typeAlias _ | .extension _ => []
termination_by structural d => d
def typePathsAll (above : List String) : List Declaration → List (List String)
  | [] => []
  | d :: ds => typePaths above d ++ typePathsAll above ds
termination_by structural ds => ds
end

theorem typePaths_struct (above : List String) (s : StructDecl) :
    typePaths above (.struct s) =
      (above ++ [s.name]) :: typePathsAll (above ++ [s.name]) s.nested := by
  cases s
  rfl

/-- The name under which a way of names leads to what is declared at its end. -/
def joined (path : List String) : String := String.intercalate "." path

/-- The scope at the end of a way of names. -/
def scopeOf (path : List String) : Option String := if path = [] then none else some (joined path)

theorem qualify_scopeOf (above : List String) (name : String) :
    Name.qualify (scopeOf above) name = joined (above ++ [name]) := by
  cases above with
  | nil => simp [scopeOf, Name.qualify, joined]
  | cons outer above =>
    have some : outer :: above ≠ [] := List.cons_ne_nil _ _
    rw [scopeOf, if_neg some, Name.qualify, joined, joined,
      String.intercalate_append_of_ne_nil some (List.cons_ne_nil _ _),
      String.intercalate_singleton]

theorem scopeOf_append (above : List String) (name : String) :
    scopeOf (above ++ [name]) = some (Name.qualify (scopeOf above) name) := by
  rw [qualify_scopeOf, scopeOf, if_neg (by simp)]

theorem typeNames_append (a b : Inventory) :
    (a ++ b).typeNames.Perm (a.typeNames ++ b.typeNames) := by
  have apart : (a ++ b).typeNames = a.structs.map (·.name) ++ (b.structs.map (·.name) ++
      (a.enums.map (·.name) ++ b.enums.map (·.name))) := by
    change (a.structs ++ b.structs).map (·.name) ++ (a.enums ++ b.enums).map (·.name) = _
    simp
  have swapped := List.perm_append_comm_assoc (b.structs.map (·.name)) (a.enums.map (·.name))
    (b.enums.map (·.name))
  rw [apart, Inventory.typeNames, Inventory.typeNames, List.append_assoc]
  exact swapped.append_left _

theorem typeNames_inventoryAll {above : List String} {ds : List Declaration}
    (each : ∀ d ∈ ds,
      (inventory (scopeOf above) d).typeNames.Perm ((typePaths above d).map joined)) :
    (inventoryAll (scopeOf above) ds).typeNames.Perm ((typePathsAll above ds).map joined) := by
  induction ds with
  | nil => exact .refl _
  | cons d ds ih =>
    obtain ⟨head, tail⟩ := List.forall_mem_cons.mp each
    rw [inventoryAll, typePathsAll, List.map_append]
    exact (typeNames_append _ _).trans (head.append (ih tail))

/-- The names of the types in a declaration are those that the ways to them spell. -/
theorem typeNames_inventory (above : List String) (d : Declaration) :
    (inventory (scopeOf above) d).typeNames.Perm ((typePaths above d).map joined) := by
  induction d generalizing above with
  | struct s ih =>
    have inside := typeNames_inventoryAll fun d member => ih d member (above ++ [s.name])
    rw [inventory_struct, typePaths_struct, List.map_cons, ← qualify_scopeOf]
    rw [scopeOf_append] at inside
    exact (typeNames_append _ _).trans (inside.cons _)
  | enum e nested ih =>
    have inside := typeNames_inventoryAll fun d member => ih d member (above ++ [e.name])
    rw [inventory, typePaths, List.map_cons, ← qualify_scopeOf]
    rw [scopeOf_append] at inside
    exact (typeNames_append _ _).trans (inside.cons _)
  | typeAlias a => exact .refl _
  | extension x => exact .refl _

theorem ne_nil_of_mem_typePathsAll {above path : List String} {ds : List Declaration}
    (each : ∀ d ∈ ds, ∀ path ∈ typePaths above d, path ≠ [])
    (member : path ∈ typePathsAll above ds) : path ≠ [] := by
  induction ds with
  | nil => cases member
  | cons d ds ih =>
    obtain ⟨head, tail⟩ := List.forall_mem_cons.mp each
    rcases List.mem_append.mp member with here | later
    · exact head path here
    · exact ih tail later

theorem ne_nil_of_mem_typePaths {above path : List String} {d : Declaration}
    (member : path ∈ typePaths above d) : path ≠ [] := by
  induction d generalizing above path with
  | struct s ih =>
    rw [typePaths_struct] at member
    rcases List.mem_cons.mp member with rfl | inside
    · simp
    · exact ne_nil_of_mem_typePathsAll (fun d nested path => ih d nested) inside
  | enum e nested ih =>
    rcases List.mem_cons.mp member with rfl | inside
    · simp
    · exact ne_nil_of_mem_typePathsAll (fun d nested path => ih d nested) inside
  | typeAlias a => cases member
  | extension x => cases member

end Declaration

/-- The ways of names to the structs and enums of a file. -/
def SourceFile.typePaths (file : SourceFile) : List (List String) :=
  Declaration.typePathsAll [] file.declarations

/-- Validation accepts the valid files, and of any other it reports the first offence. The name of a
type, which is what the way to it spells, is dotted if each name on the way is. -/
theorem validation_reports_first_offence (file : SourceFile) :
    (file.validate = .ok () ↔ file.flatten.Valid) ∧
    (∀ d, file.validate = .error d ↔ file.flatten.offences.head? = some d) ∧
    file.flatten.typeNames.Perm (file.typePaths.map Declaration.joined) ∧
    ∀ path ∈ file.typePaths,
      Name.Dotted (Declaration.joined path) ↔ ∀ n ∈ path, Name.Dotted n := by
  refine ⟨Inventory.validate_iff_valid, ?_, ?_, ?_⟩
  · intro d
    rw [SourceFile.validate, Inventory.validate_first, Defect.first_eq_error]
  · have outermost (d : Declaration) (_ : d ∈ file.declarations) :=
      Declaration.typeNames_inventory [] d
    exact Declaration.typeNames_inventoryAll outermost
  · intro path member
    have some : path ≠ [] := Declaration.ne_nil_of_mem_typePathsAll
      (fun d _ path => Declaration.ne_nil_of_mem_typePaths) member
    simp only [← Name.isDotted_iff]
    exact Name.isDotted_intercalate some

-- A nested type is declared again by one that has the whole name.
example : SourceFile.validate ⟨"Outer.swift",
    [.struct { name := "A", nested := [.enum ⟨"B", "Int"⟩ []] }, .struct { name := "A.B" }]⟩ =
      .error (.duplicate "A.B") := by decide

end SwiftCodec
