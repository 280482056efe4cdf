import SwiftCodec.Declaration.Basic
import SwiftCodec.Name.Basic

/-!
The declarations of a file with nesting removed: each under the name by which an extension refers
to it, `Outer.Inner`, and in the order in which a reader of the file meets them.
-/
namespace SwiftCodec

structure Inventory where
  structs : List StructDecl := []
  enums : List EnumDecl := []
  aliases : List AliasDecl := []
  extensions : List ExtensionDecl := []
deriving DecidableEq, Repr, Inhabited

namespace Inventory

def append (a b : Inventory) : Inventory :=
  ⟨a.structs ++ b.structs, a.enums ++ b.enums, a.aliases ++ b.aliases,
    a.extensions ++ b.extensions⟩

instance : Append Inventory := ⟨append⟩

end Inventory

namespace Declaration

mutual
/-- The inventory of a declaration inside the one named by `scope`. -/
def inventory (scope : Option String) : Declaration → Inventory
  | .struct ⟨name, parameters, fields, nested⟩ =>
    let name := Name.qualify scope name
    { structs := [{ name, parameters, fields }] } ++ inventoryAll (some name) nested
  | .enum e nested =>
    let name := Name.qualify scope e.name
    { enums := [{ e with name := name }] } ++ inventoryAll (some name) nested
  | .typeAlias a => { aliases := [{ a with name := Name.qualify scope a.name }] }
  | .extension x => { extensions := [{ x with name := Name.qualify scope x.name }] }
termination_by structural d => d
def inventoryAll (scope : Option String) : List Declaration → Inventory
  | [] => {}
  | d :: ds => inventory scope d ++ inventoryAll scope ds
termination_by structural ds => ds
end

theorem inventory_struct (scope : Option String) (s : StructDecl) :
    inventory scope (.struct s) =
      { structs := [{ s with name := Name.qualify scope s.name, nested := [] }] } ++
        inventoryAll (some (Name.qualify scope s.name)) s.nested := by
  cases s
  rfl

end Declaration

def SourceFile.flatten (file : SourceFile) : Inventory :=
  Declaration.inventoryAll none file.declarations

end SwiftCodec
