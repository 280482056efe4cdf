import SwiftCodec.Proofs.Resolution.Unfolding

/-!
Type aliases are transparent to the generated code: a struct whose field types name an alias and one
that has the declared target in its place get the same encoder, with the same warnings, and the same
decoding expressions. Only the spelling of a type keeps the name that was written.
-/
namespace SwiftCodec

/-- Two structs that differ only in aliases of the field types, replaced by their targets. -/
structure StructDecl.Unfolds (m : Aliases) (s s' : StructDecl) : Prop where
  name : s'.name = s.name
  parameters : s'.parameters = s.parameters
  fields : List.Forall₂
    (fun f f' => f'.name = f.name ∧ m.Unfolds s.parameters f.type f'.type) s.fields s'.fields

/-- Two fields that generated code cannot tell apart. -/
def Field.Alike (f f' : Field) : Prop := f'.name = f.name ∧ TypeExpr.Alike f.type f'.type

theorem Field.encode_congr {f f' : Field} (alike : f.Alike f') (params : List String)
    (known : List EnumDecl) : f.encode params known = f'.encode params known := by
  have judged : f.nonStringKey? known = f'.nonStringKey? known := by
    rw [nonStringKey?_eq, nonStringKey?_eq, alike.2.keyName_eq, alike.1]
  simp only [encode_eq, judged, store, alike.1, encodeExpression, alike.2.plan_eq params]

theorem StructDecl.encoder_congr {s s' : StructDecl} (name : s'.name = s.name)
    (parameters : s'.parameters = s.parameters)
    (fields : List.Forall₂ Field.Alike s.fields s'.fields) (known : List EnumDecl) :
    s.encoder known = s'.encoder known := by
  have rows : s.fields.mapM (s.row known) = s'.fields.mapM (s'.row known) := by
    refine mapM_congr_forall₂ (fields.imp fun f f' alike => ?_)
    simp only [row, parameters, alike.1, Field.encode_congr alike]
  simp only [encoder_eq, rows, assemble, encodeParameters, name, parameters]

/-- A struct that can be resolved can be resolved with aliases of its field types replaced by their
declared targets, and generates the same code. -/
theorem aliases_transparent (r : Registry) (s s' resolved : StructDecl)
    (aliases_declared : ∀ e ∈ r.aliases.entries, e.2.Declared)
    (fields_declared : ∀ f ∈ s.fields, f.type.Declared)
    (unfolds : s.Unfolds r.aliases s') (resolves : r.resolveStruct s = .ok resolved) :
    ∃ resolved', r.resolveStruct s' = .ok resolved' ∧
      (∀ known, resolved.encoder known = resolved'.encoder known) ∧
      List.Forall₂ (fun f f' => f'.name = f.name ∧ ∀ input params,
          decodeExpression input f.type params = decodeExpression input f'.type params)
        resolved.fields resolved'.fields := by
  obtain ⟨fields, hfields, h⟩ := bind_eq_ok.mp resolves
  cases h
  obtain ⟨fields', hfields', alike⟩ := mapM_related (S := Field.Alike) unfolds.fields
    (fun f member f' unfolded g hg => by
      obtain ⟨u, hu, h⟩ := bind_eq_ok.mp hg
      cases h
      obtain ⟨u', hu', alike⟩ :=
        Aliases.resolveIn_unfolds aliases_declared (fields_declared f member) unfolded.2 hu
      exact ⟨{ f' with type := u' }, bind_eq_ok.mpr ⟨u', hu', rfl⟩, unfolded.1, alike⟩) hfields
  refine ⟨{ s' with fields := fields' }, ?_, ?_, ?_⟩
  · rw [← unfolds.parameters] at hfields'
    exact bind_eq_ok.mpr ⟨fields', hfields', rfl⟩
  · exact StructDecl.encoder_congr unfolds.name unfolds.parameters alike
  · refine alike.imp fun f f' alike => ⟨alike.1, fun input params => ?_⟩
    simp only [decodeExpression, alike.2.plan_eq params]

/-- A chain of two aliases, and one whose target has arguments that are aliases. -/
def userAliases : Aliases :=
  ⟨[("UserId", .named "Id"), ("Id", .named "String"), ("Friends", .array (.named "UserId"))]⟩

def friendsStruct (key friends : TypeExpr) : StructDecl :=
  ⟨"Circle", ["T"], [⟨"members", .dictionary key friends⟩, ⟨"value", .named "T"⟩], []⟩

theorem aliases_transparent_circle :
    (∀ e ∈ userAliases.entries, e.2.Declared) ∧
    (∀ f ∈ (friendsStruct (.named "UserId") (.named "Friends")).fields, f.type.Declared) ∧
    (friendsStruct (.named "UserId") (.named "Friends")).Unfolds userAliases
      (friendsStruct (.named "Id") (.array (.named "UserId"))) ∧
    ∃ resolved resolved',
      Registry.resolveStruct { aliases := userAliases }
        (friendsStruct (.named "UserId") (.named "Friends")) = .ok resolved ∧
      Registry.resolveStruct { aliases := userAliases }
        (friendsStruct (.named "Id") (.array (.named "UserId"))) = .ok resolved' ∧
      (∀ known, resolved.encoder known = resolved'.encoder known) ∧
      List.Forall₂ (fun f f' => f'.name = f.name ∧ ∀ input params,
          decodeExpression input f.type params = decodeExpression input f'.type params)
        resolved.fields resolved'.fields := by
  have aliases_declared : ∀ e ∈ userAliases.entries, e.2.Declared := by decide
  have fields_declared :
      ∀ f ∈ (friendsStruct (.named "UserId") (.named "Friends")).fields, f.type.Declared := by
    decide
  have unfolds : (friendsStruct (.named "UserId") (.named "Friends")).Unfolds userAliases
      (friendsStruct (.named "Id") (.array (.named "UserId"))) :=
    { name := rfl
      parameters := rfl
      fields :=
        .cons ⟨rfl, .args (.cons (.target (by decide) rfl (by decide))
          (.cons (.target (by decide) rfl (by decide)) .nil))⟩ (.cons ⟨rfl, .refl _⟩ .nil) }
  have userId : userAliases.target? "UserId" = some (.named "Id") := rfl
  have id : userAliases.target? "Id" = some (.named "String") := rfl
  have friends : userAliases.target? "Friends" = some (.array (.named "UserId")) := rfl
  have string : userAliases.target? "String" = none := rfl
  have resolves : Registry.resolveStruct { aliases := userAliases }
      (friendsStruct (.named "UserId") (.named "Friends")) =
      .ok (friendsStruct ⟨"UserId", some "String", []⟩ (.array ⟨"UserId", some "String", []⟩)) := by
    simp [Registry.resolveStruct, friendsStruct, TypeExpr.dictionary, TypeExpr.array,
      TypeExpr.generic, TypeExpr.named, Aliases.resolveIn_leaf, Aliases.resolveIn_cons,
      Aliases.follow_eq, userId, id, friends, string, Aliases.replace, bind, Except.bind, pure,
      Except.pure]
  obtain ⟨resolved', resolves', same⟩ := aliases_transparent { aliases := userAliases } _ _ _
    aliases_declared fields_declared unfolds resolves
  exact ⟨aliases_declared, fields_declared, unfolds, _, resolved', resolves, resolves', same⟩

end SwiftCodec
