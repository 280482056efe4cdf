import SwiftCodec.Declaration.Inventory

/-!
Declarations inside declarations. An inventory holds the extensions of a file whatever the depth at
which they stand, each under the names of the declarations around it.
-/
namespace SwiftCodec.Declaration

@[elab_as_elim, induction_eliminator]
theorem induct {motive : Declaration → Prop}
    (struct : ∀ s, (∀ d ∈ s.nested, motive d) → motive (.struct s))
    (enum : ∀ e nested, (∀ d ∈ nested, motive d) → motive (.enum e nested))
    (typeAlias : ∀ a, motive (.typeAlias a)) (extension : ∀ x, motive (.extension x)) :
    ∀ d, motive d
  | .struct ⟨name, parameters, fields, nested⟩ =>
    struct ⟨name, parameters, fields, nested⟩ fun d _ => induct struct enum typeAlias extension d
  | .enum e nested => enum e nested fun d _ => induct struct enum typeAlias extension d
  | .typeAlias a => typeAlias a
  | .extension x => extension x

/-- An extension is among declarations or inside one of them. Inside, the name of a declaration goes
on from the names around it. -/
inductive Extended : Option String → List Declaration → ExtensionDecl → Prop where
  | here {scope : Option String} {ds : List Declaration} {x : ExtensionDecl}
      (member : .extension x ∈ ds) : Extended scope ds { x with name := Name.qualify scope x.name }
  | inStruct {scope : Option String} {ds : List Declaration} {s : StructDecl}
      {x : ExtensionDecl} (member : .struct s ∈ ds)
      (inside : Extended (some (Name.qualify scope s.name)) s.nested x) : Extended scope ds x
  | inEnum {scope : Option String} {ds nested : List Declaration} {e : EnumDecl}
      {x : ExtensionDecl} (member : .enum e nested ∈ ds)
      (inside : Extended (some (Name.qualify scope e.name)) nested x) : Extended scope ds x

variable {scope : Option String} {ds nested : List Declaration} {x : ExtensionDecl}

theorem extensions_append (a b : Inventory) : (a ++ b).extensions = a.extensions ++ b.extensions :=
  rfl

theorem extensions_inventory_struct (s : StructDecl) :
    (inventory scope (.struct s)).extensions =
      (inventoryAll (some (Name.qualify scope s.name)) s.nested).extensions := by
  rw [inventory_struct]
  rfl

theorem extensions_inventory_enum (e : EnumDecl) :
    (inventory scope (.enum e nested)).extensions =
      (inventoryAll (some (Name.qualify scope e.name)) nested).extensions := rfl

theorem mem_extensions_inventoryAll :
    x ∈ (inventoryAll scope ds).extensions ↔ ∃ d ∈ ds, x ∈ (inventory scope d).extensions := by
  induction ds with
  | nil => simp [inventoryAll]
  | cons d ds ih => simp [inventoryAll, extensions_append, ih]

theorem extended_of_mem {d : Declaration} (member : d ∈ ds)
    (found : x ∈ (inventory scope d).extensions) : Extended scope ds x := by
  induction d generalizing scope ds with
  | struct s ih =>
    rw [extensions_inventory_struct] at found
    obtain ⟨d, inside, found⟩ := mem_extensions_inventoryAll.mp found
    exact .inStruct member (ih d inside inside found)
  | enum e nested ih =>
    rw [extensions_inventory_enum] at found
    obtain ⟨d, inside, found⟩ := mem_extensions_inventoryAll.mp found
    exact .inEnum member (ih d inside inside found)
  | typeAlias a => cases found
  | extension y =>
    obtain rfl := List.mem_singleton.mp found
    exact .here member

/-- The inventory finds every extension, and nothing else. -/
theorem mem_extensions_iff_extended :
    x ∈ (inventoryAll scope ds).extensions ↔ Extended scope ds x := by
  constructor
  · intro found
    obtain ⟨d, member, found⟩ := mem_extensions_inventoryAll.mp found
    exact extended_of_mem member found
  · intro extended
    induction extended with
    | here member => exact mem_extensions_inventoryAll.mpr ⟨_, member, List.mem_singleton_self _⟩
    | inStruct member _ ih =>
      rw [← extensions_inventory_struct] at ih
      exact mem_extensions_inventoryAll.mpr ⟨_, member, ih⟩
    | inEnum member _ ih => exact mem_extensions_inventoryAll.mpr ⟨_, member, ih⟩

end SwiftCodec.Declaration
