import SwiftCodec.Document.Writer
import SwiftCodec.Proofs.Declaration.Nesting
import SwiftCodec.Proofs.Document.Settling
import SwiftCodec.Proofs.Json.Distinct
import SwiftCodec.Proofs.Json.Writing
import SwiftCodec.Proofs.TypeExpr.Nodes

/-!
Files as values and back. What is written of a file names each key once and has no values but
strings, arrays and objects, and reading it gives the file.
-/
namespace SwiftCodec

/-! ## What is written -/

/-- A value whose text can be read back: strings and containers, each key of an object once. -/
structure Json.Plain (j : Json) : Prop where
  textual : j.Textual
  distinct : j.Distinct

theorem Json.plain_string (s : String) : (Json.string s).Plain := ⟨trivial, trivial⟩

theorem Json.plain_array {items : List Json} (plain : ∀ j ∈ items, j.Plain) :
    (Json.array items).Plain :=
  ⟨textualItems_iff.mpr fun j member => (plain j member).textual,
    distinctItems_iff.mpr fun j member => (plain j member).distinct⟩

theorem Json.plain_object {members : List (String × Json)} (keys : (members.map Prod.fst).Nodup)
    (plain : ∀ m ∈ members, m.2.Plain) : (Json.object members).Plain :=
  ⟨textualMembers_iff.mpr fun m member => (plain m member).textual,
    keys, distinctMembers_iff.mpr fun m member => (plain m member).distinct⟩

theorem Json.plain_strings (names : List String) : (Json.strings names).Plain := by
  refine plain_array fun j member => ?_
  obtain ⟨name, -, rfl⟩ := List.mem_map.mp member
  exact plain_string name

namespace TypeExpr

theorem toJsonAll_eq (ts : List TypeExpr) : toJsonAll ts = ts.map toJson := by
  induction ts with
  | nil => rfl
  | cons t ts ih => rw [toJsonAll, ih, List.map_cons]

/-- The members of a written type behind its name. -/
def optionalMembers (target : Option String) (args : List TypeExpr) : List (String × Json) :=
  (match target with
    | none => []
    | some name => [("alias", .string name)]) ++
  (match args with
    | [] => []
    | _ :: _ => [("genericArguments", .array (toJsonAll args))])

theorem toJson_eq (base : String) (target : Option String) (args : List TypeExpr) :
    toJson ⟨base, target, args⟩ =
      .object (("baseName", .string base) :: optionalMembers target args) := by
  cases args <;> rfl

theorem plain_toJson (t : TypeExpr) : t.toJson.Plain := by
  induction t with
  | node base target args ih =>
    have arguments : (Json.array (toJsonAll args)).Plain := by
      rw [toJsonAll_eq]
      exact Json.plain_array (List.forall_mem_map.mpr ih)
    rw [toJson_eq]
    refine Json.plain_object ?_ ?_
    · cases target <;> cases args <;> simp [optionalMembers]
    · cases target <;> cases args <;> simp [optionalMembers, Json.plain_string, arguments]

end TypeExpr

theorem Field.plain_toJson (f : Field) : f.toJson.Plain := by
  refine Json.plain_object (by simp) ?_
  simp [Json.plain_string, f.type.plain_toJson]

namespace Declaration

theorem toJsonAll_eq (ds : List Declaration) : toJsonAll ds = ds.map toJson := by
  induction ds with
  | nil => rfl
  | cons d ds ih =>
    rw [toJsonAll, ih, List.map_cons]
    rfl

theorem keys_nestedMember (ds : List Declaration) :
    List.Sublist ((nestedMember ds).map Prod.fst) ["nested"] := by
  cases ds with
  | nil => exact List.nil_sublist _
  | cons d ds => exact List.Sublist.refl _

/-- The members of a declaration have keys of their own, none of which is that of the kind. -/
theorem nodup_keys (d : Declaration) :
    ((("kind", Json.string d.kind.text) :: d.members).map Prod.fst).Nodup := by
  cases d with
  | struct s =>
    have keys : ["kind", "baseName", "typeArguments", "varDecls", "nested"].Nodup := by decide
    refine keys.sublist ?_
    rw [members, s.members_eq, List.map_cons, List.map_append]
    exact ((keys_nestedMember s.nested).append_left _).cons_cons _
  | enum e nested =>
    have keys : ["kind", "baseName", "rawTypeName", "nested"].Nodup := by decide
    refine keys.sublist ?_
    rw [members, List.map_cons, List.map_append]
    exact ((keys_nestedMember nested).append_left _).cons_cons _
  | typeAlias a => simp [members, AliasDecl.members]
  | extension x => simp [members, ExtensionDecl.members]

theorem kind_absent (d : Declaration) : ∀ m ∈ d.members, m.1 ≠ "kind" := by
  intro m member same
  have keys := (List.nodup_cons.mp d.nodup_keys).1
  exact keys (List.mem_map.mpr ⟨m, member, same⟩)

theorem plain_nestedMember {ds : List Declaration} (plain : ∀ d ∈ ds, d.toJson.Plain) :
    ∀ m ∈ nestedMember ds, m.2.Plain := by
  cases ds with
  | nil => simp [nestedMember]
  | cons d ds =>
    have list : (Json.array (toJsonAll (d :: ds))).Plain := by
      rw [toJsonAll_eq]
      exact Json.plain_array (List.forall_mem_map.mpr plain)
    exact List.forall_mem_singleton.mpr list

theorem plain_toJson (d : Declaration) : d.toJson.Plain := by
  have of_members {d : Declaration} (plain : ∀ m ∈ d.members, m.2.Plain) : d.toJson.Plain :=
    Json.plain_object d.nodup_keys (List.forall_mem_cons.mpr ⟨Json.plain_string _, plain⟩)
  induction d with
  | struct s ih =>
    have fields : (Json.array (s.fields.map Field.toJson)).Plain :=
      Json.plain_array (List.forall_mem_map.mpr fun f _ => f.plain_toJson)
    apply of_members
    rw [members, s.members_eq, List.forall_mem_append]
    exact ⟨by simp [Json.plain_string, Json.plain_strings, fields], plain_nestedMember ih⟩
  | enum e nested ih =>
    apply of_members
    rw [members, List.forall_mem_append]
    exact ⟨by simp [EnumDecl.members, Json.plain_string], plain_nestedMember ih⟩
  | typeAlias a =>
    apply of_members
    simp [members, AliasDecl.members, Json.plain_string, a.target.plain_toJson]
  | extension x =>
    apply of_members
    simp [members, ExtensionDecl.members, Json.plain_string, Json.plain_strings]

end Declaration

theorem SourceFile.plain_toJson (f : SourceFile) : f.toJson.Plain := by
  have list : (Json.array (f.declarations.map Declaration.toJson)).Plain :=
    Json.plain_array (List.forall_mem_map.mpr fun d _ => d.plain_toJson)
  refine Json.plain_object (by simp) ?_
  simp [Json.plain_string, list]

/-! ## Reading it -/

namespace Document

variable {standing : Standing}

theorem readItems_map {α : Type} {read : Json → Reading α} {write : α → Json} {as : List α}
    (undoes : ∀ a ∈ as, read (write a) = .ok a) (i : Nat) :
    readItems read i (as.map write) = .ok as := by
  induction as generalizing i with
  | nil => rfl
  | cons a as ih =>
    obtain ⟨first, others⟩ := List.forall_mem_cons.mp undoes
    rw [List.map_cons, readItems, first, ih others]
    rfl

theorem readTypeItems_eq (i : Nat) (items : List Json) :
    readTypeItems standing i items = readItems (readType standing) i items := by
  induction items generalizing i with
  | nil => rfl
  | cons j rest ih => simp only [readTypeItems, readItems, ih]

theorem readDeclarationItems_eq (i : Nat) (items : List Json) :
    readDeclarationItems standing i items = readItems (readDeclaration standing) i items := by
  induction items generalizing i with
  | nil => rfl
  | cons j rest ih => simp only [readDeclarationItems, readItems, ih]

theorem readType_toJson (t : TypeExpr) : readType standing t.toJson = .ok t := by
  induction t with
  | node base target args ih =>
    have arguments : readTypeItems standing 0 (TypeExpr.toJsonAll args) = .ok args := by
      rw [TypeExpr.toJsonAll_eq, readTypeItems_eq, readItems_map ih]
    rw [TypeExpr.toJson_eq, readType]
    cases target <;> cases args <;>
      simp [TypeExpr.optionalMembers, readTypeMembers, once, readString, readOptionalString,
        readTypes, arguments, atKey, Except.mapError, Except.map, bind, Except.bind,
        TypeDraft.finish, required]

theorem readStrings_strings (names : List String) :
    readStrings (Json.strings names) = .ok names := by
  have undoes : ∀ name ∈ names, readString (.string name) = .ok name := fun _ _ => rfl
  exact readItems_map undoes 0

theorem readNamedType_written (name : String) (type : TypeExpr) :
    readNamedTypeMembers standing none none [("name", .string name), ("type", type.toJson)] =
      .ok (name, type) := by
  simp [readNamedTypeMembers, once, readString, readType_toJson, atKey, Except.mapError, bind,
    Except.bind, required]

theorem readField_toJson (f : Field) : readField standing f.toJson = .ok f := by
  rw [Field.toJson, readField, readNamedType_written]
  rfl

theorem readFields_written (fields : List Field) :
    readFields standing (.array (fields.map Field.toJson)) = .ok fields :=
  readItems_map (fun f _ => readField_toJson f) 0

theorem readDeclarations_written {ds : List Declaration}
    (undoes : ∀ d ∈ ds, readDeclaration standing d.toJson = .ok d) :
    readDeclarations standing (.array (Declaration.toJsonAll ds)) = .ok ds := by
  rw [readDeclarations, Declaration.toJsonAll_eq, readDeclarationItems_eq, readItems_map undoes]

theorem readBody_struct {s : StructDecl}
    (undoes : ∀ d ∈ s.nested, readDeclaration .inside d.toJson = .ok d) :
    readBody .struct s.members = .ok (.struct s) := by
  have inner := readDeclarations_written undoes
  obtain ⟨name, parameters, fields, nested⟩ := s
  cases nested with
  | nil =>
    simp [StructDecl.members, Declaration.nestedMember, readBody, readStructMembers, once,
      readString, readStrings_strings, readFields_written, atKey, settled, Except.mapError,
      Except.map, bind, Except.bind, StructDraft.finish, required]
  | cons d ds =>
    rw [Declaration.toJsonAll] at inner
    simp [StructDecl.members, Declaration.nestedMember, readBody, readStructMembers, once,
      readString, readStrings_strings, readFields_written, inner, atKey, settled,
      Except.mapError, Except.map, bind, Except.bind, StructDraft.finish, required]

theorem readBody_enum {e : EnumDecl} {nested : List Declaration}
    (undoes : ∀ d ∈ nested, readDeclaration .inside d.toJson = .ok d) :
    readBody .enum (e.members ++ Declaration.nestedMember nested) = .ok (.enum e nested) := by
  have inner := readDeclarations_written undoes
  cases nested with
  | nil =>
    simp [EnumDecl.members, Declaration.nestedMember, readBody, readEnumMembers, once, readString,
      atKey, settled, Except.mapError, Except.map, bind, Except.bind, EnumDraft.finish, required,
      asEnum]
  | cons d ds =>
    rw [Declaration.toJsonAll] at inner
    simp [EnumDecl.members, Declaration.nestedMember, readBody, readEnumMembers, once, readString,
      inner, atKey, settled, Except.mapError, Except.map, bind, Except.bind, EnumDraft.finish,
      required, asEnum]

theorem readDeclaration_toJson (d : Declaration) : readDeclaration standing d.toJson = .ok d := by
  have of_body {d : Declaration} {standing : Standing} (body : readBody d.kind d.members = .ok d) :
      readDeclaration standing d.toJson = .ok d := by
    rw [Declaration.toJson, readDeclaration_object, kindAmong_front d.kind_absent]
    exact (readBody_kind _ d.members).trans body
  induction d generalizing standing with
  | struct s ih => exact of_body (readBody_struct fun d member => ih d member)
  | enum e nested ih => exact of_body (readBody_enum fun d member => ih d member)
  | typeAlias a =>
    apply of_body
    change settled ((readNamedTypeMembers .inside none none
      [("name", .string a.name), ("type", a.target.toJson)]).map asAlias) = _
    rw [readNamedType_written]
    rfl
  | extension x =>
    apply of_body
    simp [Declaration.kind, Declaration.members, ExtensionDecl.members, readBody,
      readExtensionMembers, once, readString, readStrings_strings, atKey, settled, Except.mapError,
      Except.map, bind, Except.bind, required]

theorem readSource_toJson (f : SourceFile) : readSource f.toJson = .ok f := by
  have declarations : readDeclarations .outside (.array (f.declarations.map Declaration.toJson)) =
      .ok f.declarations := by
    rw [← Declaration.toJsonAll_eq]
    exact readDeclarations_written fun d _ => readDeclaration_toJson d
  simp [SourceFile.toJson, readSource, readSourceMembers, once, readString, declarations, atKey,
    Except.mapError, bind, Except.bind, SourceDraft.finish, required]

end Document

/-- Reading undoes writing. -/
theorem SourceFile.ofJson_toJson (f : SourceFile) : SourceFile.ofJson f.toJson = .ok f := by
  unfold SourceFile.ofJson
  rw [Json.unrepeated_of_distinct _ f.plain_toJson.distinct]
  exact Document.readSource_toJson f

end SwiftCodec
