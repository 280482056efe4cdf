import SwiftCodec.Proofs.Declaration.Offences

/-!
Where the declarations of a file are. A position is the way to a declaration by indices, so that
positions in lexicographic order are those of a reader: a declaration comes before what it holds,
and all of that before the next one. Flattening takes what stands at the positions in this order,
each under the names around it, and has nothing left to do on its own result.
-/
namespace SwiftCodec

namespace Declaration

def name : Declaration → String
  | .struct s => s.name
  | .enum e _ => e.name
  | .typeAlias a => a.name
  | .extension x => x.name

def nested : Declaration → List Declaration
  | .struct s => s.nested
  | .enum _ nested => nested
  | .typeAlias _ | .extension _ => []

/-- The declaration alone, under its name and those around it. -/
def unnested (around : List String) : Declaration → Declaration
  | .struct s => .struct { s with name := joined (around ++ [s.name]), nested := [] }
  | .enum e _ => .enum { e with name := joined (around ++ [e.name]) } []
  | .typeAlias a => .typeAlias { a with name := joined (around ++ [a.name]) }
  | .extension x => .extension { x with name := joined (around ++ [x.name]) }

/-- What stands at a position below a declaration, and the names around it. -/
def at? (around : List String) (d : Declaration) : List Nat → Option (List String × Declaration)
  | [] => some (around, d)
  | i :: rest => d.nested[i]?.bind fun inner => at? (around ++ [d.name]) inner rest

/-- What stands at a position among declarations; the first index tells which of them. -/
def among? (around : List String) (ds : List Declaration) :
    List Nat → Option (List String × Declaration)
  | [] => none
  | i :: rest => ds[i]?.bind fun d => d.at? around rest

mutual
def positions : Declaration → List (List Nat)
  | .struct ⟨_, _, _, nested⟩ | .enum _ nested => [] :: positionsFrom 0 nested
  | .typeAlias _ | .extension _ => [[]]
termination_by structural d => d
/-- The positions in declarations of which the first has the given index. -/
def positionsFrom (i : Nat) : List Declaration → List (List Nat)
  | [] => []
  | d :: ds => (positions d).map (i :: ·) ++ positionsFrom (i + 1) ds
termination_by structural ds => ds
end

def struct? : Declaration → Option StructDecl
  | .struct s => some s
  | _ => none

def enum? : Declaration → Option EnumDecl
  | .enum e _ => some e
  | _ => none

def typeAlias? : Declaration → Option AliasDecl
  | .typeAlias a => some a
  | _ => none

def extension? : Declaration → Option ExtensionDecl
  | .extension x => some x
  | _ => none

/-- Declarations sorted by their kind, without what is inside of them. -/
def byKind (ds : List Declaration) : Inventory where
  structs := ds.filterMap struct?
  enums := ds.filterMap enum?
  aliases := ds.filterMap typeAlias?
  extensions := ds.filterMap extension?

theorem byKind_append (ds es : List Declaration) : byKind (ds ++ es) = byKind ds ++ byKind es := by
  simp only [byKind, List.filterMap_append]
  rfl

/-- The entry of a declaration comes first, behind it those of what it holds. -/
theorem inventory_eq (around : List String) (d : Declaration) :
    inventory (scopeOf around) d =
      byKind [d.unnested around] ++ inventoryAll (scopeOf (around ++ [d.name])) d.nested := by
  have inside (name : String) :
      scopeOf (around ++ [name]) = some (joined (around ++ [name])) := by
    rw [scopeOf_append, qualify_scopeOf]
  cases d with
  | struct s =>
    rw [inventory_struct, qualify_scopeOf, inside]
    rfl
  | enum e nested =>
    rw [inventory, qualify_scopeOf, inside]
    rfl
  | typeAlias a =>
    rw [inventory, qualify_scopeOf]
    rfl
  | extension x =>
    rw [inventory, qualify_scopeOf]
    rfl

theorem positions_eq (d : Declaration) : d.positions = [] :: positionsFrom 0 d.nested := by
  cases d with
  | struct s => cases s; rfl
  | enum | typeAlias | extension => rfl

theorem at?_cons (around : List String) (d : Declaration) (i : Nat) (rest : List Nat) :
    d.at? around (i :: rest) = among? (around ++ [d.name]) d.nested (i :: rest) := rfl

/-! ## Order and completeness -/

variable {d : Declaration} {ds : List Declaration} {i : Nat} {p : List Nat}

/-- A declaration that is nested in another comes to it by induction. -/
theorem nested_induction {motive : Declaration → Prop}
    (step : ∀ d, (∀ inner ∈ d.nested, motive inner) → motive d) (d : Declaration) : motive d := by
  induction d with
  | struct s ih => exact step _ ih
  | enum e nested ih => exact step _ ih
  | typeAlias a => exact step _ (List.forall_mem_nil _)
  | extension x => exact step _ (List.forall_mem_nil _)

theorem exists_head_of_mem (member : p ∈ positionsFrom i ds) :
    ∃ j rest, p = (i + j) :: rest := by
  induction ds generalizing i with
  | nil => cases member
  | cons d ds ih =>
    rcases List.mem_append.mp member with here | later
    · obtain ⟨rest, -, rfl⟩ := List.mem_map.mp here
      exact ⟨0, rest, rfl⟩
    · obtain ⟨j, rest, rfl⟩ := ih later
      exact ⟨j + 1, rest, by rw [Nat.add_assoc, Nat.add_comm 1]⟩

theorem mem_positionsFrom {j : Nat} {rest : List Nat} :
    (i + j) :: rest ∈ positionsFrom i ds ↔ ∃ d, ds[j]? = some d ∧ rest ∈ d.positions := by
  induction ds generalizing i j with
  | nil => simp [positionsFrom]
  | cons d ds ih =>
    rw [positionsFrom, List.mem_append, List.mem_map]
    cases j with
    | zero =>
      have later : i :: rest ∉ positionsFrom (i + 1) ds := by
        intro member
        obtain ⟨k, rest', same⟩ := exists_head_of_mem member
        have heads := (List.cons.inj same).1
        omega
      simp [later]
    | succ j =>
      have apart : i + (j + 1) = i + 1 + j := by omega
      have here : ¬ ∃ a ∈ d.positions, i :: a = (i + 1 + j) :: rest := by
        rintro ⟨a, -, same⟩
        have heads := (List.cons.inj same).1
        omega
      rw [apart, or_iff_right here, ih, List.getElem?_cons_succ]

theorem mem_positions (around : List String) : p ∈ d.positions ↔ (d.at? around p).isSome := by
  induction d using nested_induction generalizing around p with
  | step d ih =>
    rw [positions_eq]
    cases p with
    | nil => simp [at?]
    | cons i rest =>
      have inside : (0 + i) :: rest ∈ positionsFrom 0 d.nested ↔ _ := mem_positionsFrom
      rw [Nat.zero_add] at inside
      rw [List.mem_cons, or_iff_right (List.cons_ne_nil _ _), inside, at?]
      cases found : d.nested[i]? with
      | none => simp
      | some inner =>
        have member : inner ∈ d.nested := List.mem_of_getElem? found
        simp only [Option.some.injEq, exists_eq_left', Option.bind_some]
        exact ih inner member (around ++ [d.name])

theorem increasing_positionsFrom (each : ∀ d ∈ ds, d.positions.Pairwise (· < ·)) :
    (positionsFrom i ds).Pairwise (· < ·) := by
  induction ds generalizing i with
  | nil => exact .nil
  | cons d ds ih =>
    obtain ⟨head, tail⟩ := List.forall_mem_cons.mp each
    refine List.pairwise_append.mpr ⟨?_, ih tail, ?_⟩
    · apply List.pairwise_map.mpr
      apply head.imp
      intro p q less
      exact List.cons_lt_cons_iff.mpr (.inr ⟨rfl, less⟩)
    · intro p before q behind
      obtain ⟨rest, -, rfl⟩ := List.mem_map.mp before
      obtain ⟨j, rest', rfl⟩ := exists_head_of_mem behind
      exact List.cons_lt_cons_iff.mpr (.inl (by omega))

theorem increasing_positions (d : Declaration) : d.positions.Pairwise (· < ·) := by
  induction d using nested_induction with
  | step d ih =>
    rw [positions_eq]
    refine List.pairwise_cons.mpr ⟨?_, increasing_positionsFrom ih⟩
    intro p member
    obtain ⟨j, rest, rfl⟩ := exists_head_of_mem member
    exact List.nil_lt_cons _ _

/-! ## What is flattened -/

/-- Reading along the positions of a list reads along those of its declarations, one after the
other. `before` has what is in front of the list. -/
theorem filterMap_positionsFrom (around : List String) (before ds : List Declaration) :
    (positionsFrom before.length ds).filterMap (among? around (before ++ ds)) =
      ds.flatMap fun d => d.positions.filterMap (d.at? around) := by
  induction ds generalizing before with
  | nil => rfl
  | cons d ds ih =>
    have rest := ih (before ++ [d])
    rw [List.length_append, List.length_singleton, List.append_assoc, List.singleton_append] at rest
    have here : among? around (before ++ d :: ds) ∘ (before.length :: ·) = d.at? around := by
      funext p
      simp [among?]
    rw [positionsFrom, List.filterMap_append, List.filterMap_map, here, rest, List.flatMap_cons]

def entry (found : List String × Declaration) : Declaration := found.2.unnested found.1

theorem inventoryAll_entries {around : List String}
    (each : ∀ d ∈ ds, inventory (scopeOf around) d =
      byKind ((d.positions.filterMap (d.at? around)).map entry)) :
    inventoryAll (scopeOf around) ds =
      byKind (((positionsFrom 0 ds).filterMap (among? around ds)).map entry) := by
  have flat := filterMap_positionsFrom around [] ds
  rw [List.length_nil, List.nil_append] at flat
  rw [flat]
  clear flat
  induction ds with
  | nil => rfl
  | cons d ds ih =>
    obtain ⟨head, tail⟩ := List.forall_mem_cons.mp each
    rw [inventoryAll, head, ih tail, List.flatMap_cons, List.map_append, byKind_append]

theorem inventory_entries (around : List String) (d : Declaration) :
    inventory (scopeOf around) d = byKind ((d.positions.filterMap (d.at? around)).map entry) := by
  induction d using nested_induction generalizing around with
  | step d ih =>
    have inside := inventoryAll_entries fun inner member => ih inner member (around ++ [d.name])
    have below : (positionsFrom 0 d.nested).filterMap (d.at? around) =
        (positionsFrom 0 d.nested).filterMap (among? (around ++ [d.name]) d.nested) := by
      apply List.filterMap_congr
      intro p member
      obtain ⟨j, rest, rfl⟩ := exists_head_of_mem member
      exact at?_cons around d _ rest
    have root : d.at? around [] = some (around, d) := rfl
    rw [inventory_eq, inside, positions_eq, List.filterMap_cons_some root, below, List.map_cons,
      ← byKind_append]
    rfl

/-- Declarations that hold none are flattened by sorting them. -/
theorem inventoryAll_flat (flat : ∀ d ∈ ds, d.nested = []) : inventoryAll none ds = byKind ds := by
  induction ds with
  | nil => rfl
  | cons d ds ih =>
    obtain ⟨head, tail⟩ := List.forall_mem_cons.mp flat
    have alone : inventory none d = byKind [d] := by
      cases d with
      | struct s =>
        cases s
        cases head
        rfl
      | enum e nested =>
        cases head
        rfl
      | typeAlias a => rfl
      | extension x => rfl
    rw [inventoryAll, alone, ih tail, ← byKind_append]
    rfl

end Declaration

namespace SourceFile

/-- What stands at a position of a file, and the names around it. -/
def at? (file : SourceFile) : List Nat → Option (List String × Declaration) :=
  Declaration.among? [] file.declarations

def positions (file : SourceFile) : List (List Nat) := Declaration.positionsFrom 0 file.declarations

theorem mem_positions {file : SourceFile} {p : List Nat} :
    p ∈ file.positions ↔ (file.at? p).isSome := by
  cases p with
  | nil =>
    have some : [] ∉ file.positions := by
      intro member
      obtain ⟨j, rest, same⟩ := Declaration.exists_head_of_mem member
      cases same
    simpa [at?, Declaration.among?] using some
  | cons i rest =>
    have among : (0 + i) :: rest ∈ Declaration.positionsFrom 0 file.declarations ↔ _ :=
      Declaration.mem_positionsFrom
    rw [Nat.zero_add] at among
    rw [positions, among, at?, Declaration.among?]
    cases file.declarations[i]? with
    | none => simp
    | some d => simp [Declaration.mem_positions []]

theorem flatten_eq (file : SourceFile) :
    file.flatten = Declaration.byKind ((file.positions.filterMap file.at?).map Declaration.entry) :=
  Declaration.inventoryAll_entries fun d _ => Declaration.inventory_entries [] d

end SourceFile

/-- Flattening has one entry for each position of a file, in the order of the positions, and nothing
else. Declarations that are flat already, in whatever order those of different kinds stand, stay as
they are. -/
theorem flattening_lists_positions (file : SourceFile) :
    (∃ positions : List (List Nat), positions.Pairwise (· < ·) ∧
      (∀ p, p ∈ positions ↔ (file.at? p).isSome) ∧
      file.flatten =
        Declaration.byKind ((positions.filterMap file.at?).map Declaration.entry)) ∧
    ∀ again : SourceFile, (∀ d ∈ again.declarations, d.nested = []) →
      Declaration.byKind again.declarations = file.flatten → again.flatten = file.flatten := by
  constructor
  · refine ⟨file.positions, ?_, fun p => SourceFile.mem_positions, file.flatten_eq⟩
    exact Declaration.increasing_positionsFrom fun d _ => d.increasing_positions
  · intro again flat same
    rw [← same]
    exact Declaration.inventoryAll_flat flat

/-- A file with nested declarations of every kind. -/
def nestedKinds : SourceFile where
  filename := "Outer.swift"
  declarations := [
    .struct ⟨"Outer", ["T"], [⟨"value", .named "T"⟩],
      [.enum ⟨"Kind", "Id"⟩ [.typeAlias ⟨"Id", .named "Int"⟩],
        .struct { name := "Inner", nested := [.extension ⟨"Leaf", ["decodeJson"]⟩] }]⟩,
    .enum ⟨"Last", "String"⟩ []]

theorem flattening_lists_positions_nested :
    let again : SourceFile := ⟨"Flat.swift", [
      .extension ⟨"Outer.Inner.Leaf", ["decodeJson"]⟩, .enum ⟨"Outer.Kind", "Id"⟩ [],
      .struct ⟨"Outer", ["T"], [⟨"value", .named "T"⟩], []⟩, .enum ⟨"Last", "String"⟩ [],
      .typeAlias ⟨"Outer.Kind.Id", .named "Int"⟩, .struct { name := "Outer.Inner" }]⟩
    (∀ d ∈ again.declarations, d.nested = []) ∧
      Declaration.byKind again.declarations = nestedKinds.flatten ∧
      again.flatten = nestedKinds.flatten := by
  intro again
  have flat : ∀ d ∈ again.declarations, d.nested = [] := by
    simp [again, Declaration.nested]
  have same : Declaration.byKind again.declarations = nestedKinds.flatten := by decide
  exact ⟨flat, same, (flattening_lists_positions nestedKinds).2 again flat same⟩

end SwiftCodec
