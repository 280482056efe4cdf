import SwiftCodec.Proofs.Codec.Marks
import SwiftCodec.Proofs.Registry.KnownEnums

/-!
How the keys of dictionary fields are judged, in terms of what the files declare. A key other than
`String` earns a warning if the enum of its name comes to another raw type, and stops the encoder if
there is no such enum.
-/
namespace SwiftCodec

/-- The fields of the structs of a file, each with its struct. -/
def SourceFile.fields (file : SourceFile) : List (StructDecl × Field) :=
  file.flatten.structs.flatMap fun s => s.fields.map (s, ·)

theorem SourceFile.mem_fields {file : SourceFile} {s : StructDecl} {f : Field}
    (struct : s ∈ file.flatten.structs) (field : f ∈ s.fields) : (s, f) ∈ file.fields :=
  List.mem_flatMap.mpr ⟨s, struct, List.mem_map.mpr ⟨f, field, rfl⟩⟩

/-- An encoder is to be made for the struct, and the type of the field resolves to a dictionary with
keys other than `String`. -/
structure Judged (r : Registry) (s : StructDecl) (f : Field) (u : TypeExpr) (key : String) :
    Prop where
  lacking : ¬ r.codecs.hasEncoder s.name
  resolved : r.aliases.resolveIn s.parameters [] f.type = .ok u
  keyed : u.Keyed key
  other : key ≠ "String"

/-- The keys of a field are those of an enum that is not backed by strings. -/
structure Warned (r : Registry) (enums : List EnumDecl) (s : StructDecl) (f : Field) (u : TypeExpr)
    (key : String) : Prop extends Judged r s f u key where
  backed : ∃ raw final, r.rawType? enums key = some raw ∧ r.aliases.Means raw final ∧
    final ≠ "String"

/-- The keys of a field are not those of an enum. -/
structure Unencodable (r : Registry) (enums : List EnumDecl) (s : StructDecl) (f : Field)
    (u : TypeExpr) (key : String) : Prop extends Judged r s f u key where
  unknown : r.rawType? enums key = none

variable {r : Registry} {enums known : List EnumDecl} {s : StructDecl} {f : Field} {u : TypeExpr}

theorem unknown_iff (resolved : r.knownEnums enums = .ok known) (key : String) :
    known.find? (·.name = key) = none ↔ r.rawType? enums key = none := by
  have found : Option.Rel (fun raw e => r.aliases.Means raw e.rawType) (r.rawType? enums key)
      (known.find? (·.name = key)) := Registry.find?_knownEnums resolved
  generalize r.rawType? enums key = raw? at found ⊢
  generalize known.find? (·.name = key) = e? at found ⊢
  cases found <;> simp

/-- What a known enum is backed by is what its declaration comes to. -/
theorem backed_iff (resolved : r.knownEnums enums = .ok known) (key : String) :
    (∃ e, known.find? (·.name = key) = some e ∧ e.rawType ≠ "String") ↔
      ∃ raw final, r.rawType? enums key = some raw ∧ r.aliases.Means raw final ∧
        final ≠ "String" := by
  have found : Option.Rel (fun raw e => r.aliases.Means raw e.rawType) (r.rawType? enums key)
      (known.find? (·.name = key)) := Registry.find?_knownEnums resolved
  generalize r.rawType? enums key = raw? at found ⊢
  generalize known.find? (·.name = key) = e? at found ⊢
  cases found with
  | none => simp
  | @some raw e means =>
    constructor
    · rintro ⟨_, same, other⟩
      cases same
      exact ⟨raw, e.rawType, rfl, means, other⟩
    · rintro ⟨_, final, same, means', other⟩
      cases same
      exact ⟨e, rfl, means.unique means' ▸ other⟩

theorem marked_iff_warned (enumsResolved : r.knownEnums enums = .ok known)
    (lacking : ¬ r.codecs.hasEncoder s.name)
    (resolved : r.aliases.resolveIn s.parameters [] f.type = .ok u) (key : String) :
    Field.nonStringKey? ⟨f.name, u⟩ known = .ok (some key) ↔ Warned r enums s f u key := by
  rw [Field.nonStringKey?_eq_some, backed_iff enumsResolved]
  constructor
  · rintro ⟨keyed, other, backed⟩
    exact ⟨⟨lacking, resolved, keyed, other⟩, backed⟩
  · rintro ⟨⟨_, _, keyed, other⟩, backed⟩
    exact ⟨keyed, other, backed⟩

theorem failed_iff_unencodable (enumsResolved : r.knownEnums enums = .ok known)
    (lacking : ¬ r.codecs.hasEncoder s.name)
    (resolved : r.aliases.resolveIn s.parameters [] f.type = .ok u) {shape : Shape}
    (shaped : u.shape = .ok shape) {d : Defect} :
    Field.nonStringKey? ⟨f.name, u⟩ known = .error d ↔
      ∃ key, Unencodable r enums s f u key ∧ d = .unsupportedKey f.name key := by
  rw [Field.nonStringKey?_eq_error shaped]
  constructor
  · rintro ⟨key, keyed, other, unknown, rfl⟩
    exact ⟨key, ⟨⟨lacking, resolved, keyed, other⟩, (unknown_iff enumsResolved key).mp unknown⟩,
      rfl⟩
  · rintro ⟨key, ⟨⟨_, _, keyed, other⟩, unknown⟩, rfl⟩
    exact ⟨key, keyed, other, (unknown_iff enumsResolved key).mpr unknown, rfl⟩

end SwiftCodec
